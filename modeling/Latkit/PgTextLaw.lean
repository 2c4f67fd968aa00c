import Latkit.PgPrepText
import Latkit.PgTrace

namespace Latkit
open Inflight (UnitRing)

/-- The unit opened by the message `m` after the client had sent `seen`: the text of a bound one is
unknown or that of the last Parse of its statement. -/
structure Label.Opened (seen : List Msg) (m : Msg) (l : Label) : Prop where
  start : l.tsStart = m.ts
  text : feKind m.type = .bind →
    l.noText = true ∨ ∃ name, boundName m = some name ∧ lastParse name seen = some l.text

def FitsSlot (m : Msg) : Prop := ∀ name text, parsed m = some (name, text) → name.length ≤ 63

instance (m : Msg) : Decidable (FitsSlot m) :=
  decidable_of_iff (∀ p ∈ parsed m, p.1.length ≤ 63)
    ⟨fun h name text hp => h (name, text) hp, fun h p hp => h p.1 p.2 hp⟩

structure FeTraced (seen : List Msg) (s : PgState) (m : Msg) (s' : PgState) : Prop where
  refs : s'.pc.RefsOk
  cache : ∀ c, s'.pc.prep = some c → CacheOk (seen ++ [m]) c
  traced : Traced s s' none ∨
    ∃ l, Traced s s' (some l) ∧ m.flags.startup = false ∧ opens m = true ∧ l.Opened seen m

section
variable {seen : List Msg} {s s' : PgState} {m : Msg}

theorem FeTraced.kept (hrefs : s.pc.RefsOk) (hcache : ∀ c, s.pc.prep = some c → CacheOk seen c)
    (hm : parsed m = none) (h : KeepsPrep s s') : FeTraced seen s m s' := by
  refine ⟨h.refs hrefs, ?_, .inl h.traced⟩
  rw [h.prep]
  exact fun c hc => (hcache c hc).other hm

theorem parsed_none (hk : feKind m.type ≠ .parse) : parsed m = none := by
  rw [parsed]
  split
  · rfl
  · split
    · next h _ => exact absurd h hk
    · rfl

theorem parsed_of_reuse {prep : Option PgPrepCache} (h : parseReuse prep m = none) : parsed m = none := by
  simp only [parseReuse] at h
  split at h
  · next hname =>
    rw [parsed]
    split
    · rfl
    · split
      · next hc => simp [hc] at hname
      · rfl
  · cases h

theorem ringPush_labels (pc : PgConn) (u : PgUnit) :
    (pc.ringPush u).labels = pc.labels ++ [u.label pc.prep] := by
  have hlabel : (u.view pc.prep).label none = u.label pc.prep := by
    cases hn : u.flags.noText <;> simp [PgUnit.label, PgUnit.view, fillText, hn]
  rw [labels_view, ringPush_view, labels_view, UnitRing.push, UnitRing.all, UnitRing.all, ← List.append_assoc,
    List.map_append, List.map_singleton, hlabel]

theorem FeTraced.push (hrefs : s.pc.RefsOk) (hcache : ∀ c, s.pc.prep = some c → CacheOk seen c)
    (hs : m.flags.startup = false) (hm : opens m = true) (hk : feKind m.type ≠ .parse)
    (hb : feKind m.type ≠ .bind) {u : PgUnit} (hidx : u.prepIdx = none) (hts : u.tsStart = m.ts) :
    FeTraced seen s m (s.withPc (s.pc.ringPush u)) := by
  refine ⟨ringPush_refs hrefs ?_, ?_, .inr ⟨u.label s.pc.prep, ?_, hs, hm, hts, fun h => absurd h hb⟩⟩
  · intro i hi
    rw [hidx] at hi
    cases hi
  · exact fun c hc => (hcache c hc).other (parsed_none hk)
  · exact .opened (ringPush_labels s.pc u) (unitQueries_nil rfl)

theorem boundUnit_opened (hcache : ∀ c, prep = some c → CacheOk seen c) (m : Msg) :
    ((boundUnit prep m).2.label (boundUnit prep m).1).Opened seen m ∧
      ∀ c, (boundUnit prep m).1 = some c → CacheOk seen c := by
  obtain h | ⟨cache, name, slot, rfl, hname, hf, h⟩ := boundUnit_cases prep m
  · rw [h]
    exact ⟨⟨rfl, fun _ => .inl rfl⟩, hcache⟩
  · obtain ⟨hlt, hused, hslot⟩ := PgPrepCache.findByName_some hf
    have htouch : (cache.touch slot).slot slot = { cache.slot slot with lru := cache.clock + 1 } := by
      rw [PgPrepCache.touch, PgPrepCache.slot, cache.slot_modify slot slot _ hlt, if_pos rfl]
    have htext := (hcache cache rfl).text slot hused
    rw [hslot] at htext
    rw [h]
    refine ⟨⟨rfl, fun _ => .inr ⟨name, hname, ?_⟩⟩, ?_⟩
    · rw [htext]
      simp [PgUnit.label, fillText, htouch, hused]
    · intro c hc
      cases hc
      exact (hcache cache rfl).touch rfl

theorem pgQueryBind_traced (hrefs : s.pc.RefsOk) (hcache : ∀ c, s.pc.prep = some c → CacheOk seen c)
    (hs : m.flags.startup = false) (hk : feKind m.type = .bind) :
    FeTraced seen s m (pgQueryBind s m) := by
  have hparsed := parsed_none (m := m) (by simp [hk])
  simp only [pgQueryBind]
  split
  · exact .kept hrefs hcache hparsed (.same rfl rfl rfl)
  · split
    · exact .kept hrefs hcache hparsed (.same rfl rfl rfl)
    · obtain ⟨hbound, hother⟩ := boundUnit_refs s.pc.prep m
      obtain ⟨hopened, hcache'⟩ := boundUnit_opened hcache m
      have hrefs' : PgConn.RefsOk { s.pc with prep := (boundUnit s.pc.prep m).1 } :=
        fun u hu => (hother u (hrefs u hu)).1
      have hlabels : PgConn.labels { s.pc with prep := (boundUnit s.pc.prep m).1 } = s.pc.labels := by
        rw [labels_view, labels_view]
        congr 2
        exact UnitRing.map_congr fun u hu => (hother u (hrefs u hu)).2
      refine ⟨ringPush_refs hrefs' hbound, fun c hc => (hcache' c hc).other hparsed,
        .inr ⟨_, .opened ?_ (unitQueries_nil rfl), hs, by simp [opens, hk], hopened⟩⟩
      rw [← hlabels]
      exact ringPush_labels _ _

theorem reuse_traced (hrefs : s.pc.RefsOk) {r : SlotReuse} (hr : r.Of s.pc.prep)
    (hpc : s'.pc = s.pc.reuse r) (hout : s'.p.out = s.p.out) (hcache : CacheOk (seen ++ [m]) r.after) :
    FeTraced seen s m s' := by
  obtain ⟨hrefs', hview⟩ := reuse_view hrefs hr
  refine ⟨by rw [hpc]; exact hrefs', ?_, .inl (.kept ?_ (unitQueries_nil (by rw [hout])))⟩
  · rw [hpc]
    intro c hc
    cases hc
    exact hcache
  · rw [hpc, labels_view, labels_view, hview]

theorem pgSessionStartup_keepsPrep (s : PgState) (m : Msg) : KeepsPrep s (pgSessionStartup s m) := by
  simp only [pgSessionStartup]
  split
  · exact .same rfl rfl rfl
  · split
    · exact .same rfl rfl rfl
    · split
      · refine ⟨rfl, id, .kept rfl ?_⟩
        simp [unitQueries, newQueries, emitCancel, LkProto.call, LkProto.bump, queries]
      · exact .same rfl rfl rfl

/-- Every message of the client keeps the names and texts of the cache in order, and opens at most the
one unit that it stands for. -/
theorem pgFrontendMsg_traced (hrefs : s.pc.RefsOk) (hcache : ∀ c, s.pc.prep = some c → CacheOk seen c)
    (hphase : s.pc.phase ≠ .ignore) (hfit : FitsSlot m) : FeTraced seen s m (pgFrontendMsg s m) := by
  rw [pgFrontendMsg, if_neg hphase]
  by_cases hs : m.flags.startup = true
  · rw [if_pos hs]
    exact .kept hrefs hcache (by rw [parsed, if_pos hs]) (pgSessionStartup_keepsPrep s m)
  · rw [if_neg hs]
    rw [Bool.not_eq_true] at hs
    cases hk : feKind m.type with
    | query =>
      have hparsed := parsed_none (m := m) (by simp [hk])
      simp only [pgQuerySimple]
      split
      · exact .kept hrefs hcache hparsed (.same rfl rfl rfl)
      · split
        · exact .kept hrefs hcache hparsed (.same rfl rfl rfl)
        · exact .push hrefs hcache hs (by simp [opens, hk]) (by simp [hk]) (by simp [hk]) rfl rfl
    | function =>
      have hparsed := parsed_none (m := m) (by simp [hk])
      simp only [pgQueryFunction]
      split
      · exact .kept hrefs hcache hparsed (.same rfl rfl rfl)
      · split
        · exact .kept hrefs hcache hparsed (.same rfl rfl rfl)
        · exact .push hrefs hcache hs (by simp [opens, hk]) (by simp [hk]) (by simp [hk]) rfl rfl
    | bind => exact pgQueryBind_traced hrefs hcache hs hk
    | parse =>
      simp only [pgPrepParse]
      cases hr : parseReuse s.pc.prep m with
      | none =>
        exact .kept hrefs hcache (parsed_of_reuse hr) (.same rfl rfl rfl)
      | some r =>
        refine reuse_traced hrefs (parseReuse_of hr) rfl ?_ (CacheOk.parse hcache ⟨hs, hk⟩ hr hfit)
        simp only
        split <;> rfl
    | close =>
      have hparsed := parsed_none (m := m) (by simp [hk])
      simp only [pgPrepClose]
      cases hr : closeReuse s.pc.prep m with
      | none => exact .kept hrefs hcache hparsed (.same rfl rfl rfl)
      | some r => exact reuse_traced hrefs (closeReuse_of hr) rfl rfl ((CacheOk.close hcache hr).other hparsed)
    | copyData =>
      have hparsed := parsed_none (m := m) (by simp [hk])
      refine .kept hrefs hcache hparsed (.ring rfl rfl ?_ ?_)
      · exact fun h => h.modify (g := PgUnit.copyData m.len) fun _ hu => hu
      · exact UnitRing.all_modify (g := PgUnit.copyData m.len) (fun _ => rfl) _
    | _ => exact .kept hrefs hcache (parsed_none (by simp [hk])) (.same rfl rfl rfl)

theorem pgStep_ignored (h : s.pc.phase = .ignore) (e : Dir × Msg) :
    (pgStep s e).pc = s.pc ∧ (pgStep s e).p.out = s.p.out := by
  obtain ⟨dir, m⟩ := e
  cases dir with
  | recv =>
    rw [pgStep_eq, pgDispatch, pgFrontendMsg, if_pos (by exact h)]
    exact ⟨rfl, rfl⟩
  | send =>
    rw [pgStep_eq, pgDispatch, pgBackendMsg, if_pos (by exact h)]
    exact ⟨rfl, rfl⟩

end

def openersFrom : List Msg → List Msg → List (List Msg × Msg)
  | _, [] => []
  | seen, m :: ms =>
    (if !m.flags.startup && opens m then [(seen, m)] else []) ++ openersFrom (seen ++ [m]) ms

theorem openersFrom_snoc (seen ms : List Msg) (m : Msg) :
    openersFrom seen (ms ++ [m]) =
      openersFrom seen ms ++ if !m.flags.startup && opens m then [(seen ++ ms, m)] else [] := by
  induction ms generalizing seen with
  | nil => simp [openersFrom]
  | cons k ms ih => simp [openersFrom, ih]

section
variable {R : α → β → Prop} {as : List α} {bs : List β}

theorem sublistForall₂_append (h : List.SublistForall₂ R as bs) (bs' : List β) :
    List.SublistForall₂ R as (bs ++ bs') := by
  induction h with
  | nil => exact .nil
  | cons hab _ ih => exact .cons hab ih
  | cons_right _ ih => exact .cons_right ih

theorem sublistForall₂_snoc (h : List.SublistForall₂ R as bs) (hab : R a b) :
    List.SublistForall₂ R (as ++ [a]) (bs ++ [b]) := by
  rw [List.sublistForall₂_iff] at h ⊢
  obtain ⟨l, hl, hs⟩ := h
  exact ⟨l ++ [b], List.rel_append hl (.cons hab .nil), hs.append_right [b]⟩

theorem sublistForall₂_sublist (h : List.SublistForall₂ R as bs) (hs : as'.Sublist as) :
    List.SublistForall₂ R as' bs := by
  induction h generalizing as' with
  | nil =>
    rw [List.sublist_nil] at hs
    rw [hs]
    exact .nil
  | cons hab _ ih =>
    cases hs with
    | cons _ hs => exact .cons_right (ih hs)
    | cons_cons _ hs => exact .cons hab (ih hs)
  | cons_right _ ih => exact .cons_right (ih hs)

end

def unitReports (s : PgState) (es : List (Dir × Msg)) : List QueryObs :=
  (pgEmits s es).flatten.filter (·.kind != .cancel)

/-- What is known after the client has sent `seen`: the cache holds the last texts, as of the end of
the queries on a connection that has left them, and the units reported and in flight are those
opened, in order. -/
structure TextsKept (seen : List Msg) (s : PgState) (reported : List QueryObs) : Prop where
  refs : s.pc.RefsOk
  cache : ∃ seen', (∀ c, s.pc.prep = some c → CacheOk seen' c) ∧ (s.pc.phase ≠ .ignore → seen' = seen)
  units : List.SublistForall₂ (fun l b => l.Opened b.1 b.2)
    (reported.map QueryObs.label ++ s.pc.labels) (openersFrom [] seen)

section
variable {seen : List Msg} {s s' : PgState} {reported : List QueryObs}

theorem Traced.counted (h : Traced (countMsgs m s) s' l) : Traced s s' l := by
  cases h with
  | kept hl hq => exact .kept hl hq
  | opened hl hq => exact .opened hl hq
  | ended hl hq => exact .ended hl hq

theorem TextsKept.traced (h : TextsKept seen s reported) (ht : Traced s s' none) (bs : List (List Msg × Msg)) :
    List.SublistForall₂ (fun l b => l.Opened b.1 b.2)
      ((reported ++ unitQueries s s').map QueryObs.label ++ s'.pc.labels) (openersFrom [] seen ++ bs) := by
  apply sublistForall₂_append
  cases ht with
  | kept hl hq =>
    rw [hl, hq, List.append_nil]
    exact h.units
  | ended hl hq =>
    rw [hl, List.append_nil, List.map_append]
    exact sublistForall₂_sublist h.units (List.Sublist.append_left hq _)

theorem TextsKept.recv (h : TextsKept seen s reported) (hfit : FitsSlot m) :
    TextsKept (seen ++ [m]) (pgStep s (.recv, m)) (reported ++ unitQueries s (pgStep s (.recv, m))) := by
  obtain ⟨seen', hcache, hseen⟩ := h.cache
  by_cases hphase : s.pc.phase = .ignore
  · obtain ⟨hpc, hout⟩ := pgStep_ignored hphase (.recv, m)
    have ht : Traced s (pgStep s (.recv, m)) none := .kept (by rw [hpc]) (unitQueries_nil (by rw [hout]))
    refine ⟨by rw [hpc]; exact h.refs, ⟨seen', by rw [hpc]; exact hcache, ?_⟩, ?_⟩
    · rw [hpc]
      exact fun hne => absurd hphase hne
    · rw [openersFrom_snoc]
      exact h.traced ht _
  · rw [hseen hphase] at hcache
    obtain ⟨hrefs, hcache', ht⟩ := pgFrontendMsg_traced (s := countMsgs m s) h.refs hcache hphase hfit
    refine ⟨hrefs, ⟨_, hcache', fun _ => rfl⟩, ?_⟩
    rw [openersFrom_snoc]
    obtain ht | ⟨l, ht, hs, hm, hl⟩ := ht
    · exact h.traced ht.counted _
    · cases ht with
      | opened hlabels hq =>
        have hlabels' : (pgStep s (.recv, m)).pc.labels = s.pc.labels ++ [l] := hlabels
        have hq' : unitQueries s (pgStep s (.recv, m)) = [] := hq
        rw [hlabels', hq', List.append_nil, ← List.append_assoc, hs, hm]
        exact sublistForall₂_snoc h.units hl

theorem TextsKept.send (h : TextsKept seen s reported) (m : Msg) :
    TextsKept seen (pgStep s (.send, m)) (reported ++ unitQueries s (pgStep s (.send, m))) := by
  obtain ⟨seen', hcache, hseen⟩ := h.cache
  obtain ⟨hprep, hrefs, ht⟩ := pgBackendMsg_keepsPrep (countMsgs m s) m
  have hprep' : (pgStep s (.send, m)).pc.prep = s.pc.prep := hprep
  refine ⟨hrefs h.refs, ⟨seen', by rw [hprep']; exact hcache, ?_⟩, ?_⟩
  · intro hne
    apply hseen
    intro hphase
    rw [(pgStep_ignored hphase (.send, m)).1] at hne
    exact hne hphase
  · have hunits := h.traced (ht.counted : Traced s (pgStep s (.send, m)) none) []
    rw [List.append_nil] at hunits
    exact hunits

theorem TextsKept.run {es : List (Dir × Msg)} (h : TextsKept seen s reported)
    (hfit : ∀ m ∈ fromClient es, FitsSlot m) :
    TextsKept (seen ++ fromClient es) (pgRun s es) (reported ++ unitReports s es) := by
  induction es generalizing seen s reported with
  | nil =>
    simp only [fromClient, unitReports, pgEmits, List.filterMap_nil, List.flatten_nil, List.filter_nil,
      List.append_nil]
    exact h
  | cons e es ih =>
    obtain ⟨dir, m⟩ := e
    have hreports (dir : Dir) : reported ++ unitReports s ((dir, m) :: es) =
        reported ++ unitQueries s (pgStep s (dir, m)) ++ unitReports (pgStep s (dir, m)) es := by
      rw [List.append_assoc, unitReports, pgEmits, List.flatten_cons, List.filter_append]
      rfl
    rw [hreports]
    cases dir with
    | recv =>
      have hclient : fromClient ((.recv, m) :: es) = m :: fromClient es := rfl
      rw [hclient, List.forall_mem_cons] at hfit
      have hrest := ih (h.recv hfit.1) hfit.2
      rw [List.append_assoc] at hrest
      exact hrest
    | send => exact ih (h.send m) hfit

end

/-- On a connection watched from its first message, no two statements in the cache ever answer to one
name, and every unit that is reported, in the order they were opened, has the text of the last Parse
of its statement before its Bind, or none, as long as the names fit the cache. -/
theorem pg_prepared_text_law (s : PgState) (hprep : s.pc.prep = none) (hring : s.pc.ring = {})
    (es : List (Dir × Msg)) (hfit : ∀ m ∈ fromClient es, FitsSlot m) :
    (∀ cache, (pgRun s es).pc.prep = some cache → ∀ i j, (cache.slot i).used = true →
        (cache.slot j).used = true → (cache.slot i).name = (cache.slot j).name → i = j) ∧
      List.SublistForall₂ (fun o b => o.label.Opened b.1 b.2) (unitReports s es)
        (openersFrom [] (fromClient es)) := by
  have hinit : TextsKept [] s [] := by
    refine ⟨?_, ⟨[], ?_, fun _ => rfl⟩, ?_⟩
    · rw [PgConn.RefsOk, hring]
      exact fun _ hu => absurd hu List.not_mem_nil
    · rw [hprep]
      rintro _ ⟨⟩
    · rw [PgConn.labels, hring]
      exact .nil
  obtain ⟨_, ⟨_, hcache, _⟩, hunits⟩ := hinit.run hfit
  refine ⟨fun cache hc => (hcache cache hc).distinct, ?_⟩
  exact List.sublistForall₂_map_left_iff.mp (sublistForall₂_sublist hunits (List.sublist_append_left _ _))

def parseMsg (n : Nat) : Msg where
  ts := 1
  type := 'P'.toUInt8
  body := List.replicate n 'a'.toUInt8 ++ 0 :: "SELECT 1".toUTF8.toList ++ [0]

def parseThenBind (n k : Nat) : List (Dir × Msg) :=
  [(.recv, parseMsg n),
    (.recv, { ts := 2, type := 'B'.toUInt8, body := 0 :: List.replicate k 'a'.toUInt8 ++ [0] }),
    (.recv, { ts := 3, type := 'E'.toUInt8 }), (.recv, { ts := 4, type := 'S'.toUInt8 }),
    (.send, { ts := 5, type := 'C'.toUInt8, body := "SELECT 1".toUTF8.toList ++ [0] }),
    (.send, { ts := 6, type := 'Z'.toUInt8, body := "I".toUTF8.toList })]

theorem pg_prepared_text_law_bound :
    List.SublistForall₂ (fun o b => o.label.Opened b.1 b.2)
      (unitReports { p := {}, flags := {}, pc := { phase := .ready } } (parseThenBind 63 63))
      (openersFrom [] (fromClient (parseThenBind 63 63))) :=
  (pg_prepared_text_law { p := {}, flags := {}, pc := { phase := .ready } } rfl rfl (parseThenBind 63 63)
    (by decide +kernel)).2

/-- A name of 64 bytes is cut to 63 in the cache: a Bind of those 63 is given its text, and parsing it
again takes a second slot that answers to the same name. -/
theorem pg_prepared_long_name :
    (unitReports { p := {}, flags := {}, pc := { phase := .ready } } (parseThenBind 64 63)).map
        QueryObs.label = [⟨2, false, "SELECT 1".toUTF8.toList⟩] ∧
      lastParse (List.replicate 63 'a'.toUInt8) (fromClient (parseThenBind 64 63)) = none ∧
      ((pgRun { p := {}, flags := {}, pc := { phase := .ready } }
          [(.recv, parseMsg 64), (.recv, parseMsg 64)]).pc.prep.map fun cache =>
        ((cache.slot 0).used, (cache.slot 1).used, (cache.slot 0).name == (cache.slot 1).name)) =
        some (true, true, true) := by
  decide +kernel

end Latkit
