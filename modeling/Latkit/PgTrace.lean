import Latkit.PgRun

namespace Latkit
open Inflight (UnitRing)

structure Label where
  tsStart : Nat
  noText : Bool
  text : List Byte
  deriving DecidableEq, Repr

def PgUnit.label (prep : Option PgPrepCache) (u : PgUnit) : Label := ⟨u.tsStart, u.flags.noText, fillText prep u⟩

def QueryObs.label (o : QueryObs) : Label := ⟨o.tsStart, o.flags.noText, o.text⟩

def PgConn.labels (pc : PgConn) : List Label := pc.ring.all.map (PgUnit.label pc.prep)

def unitQueries (s s' : PgState) : List QueryObs := (newQueries s s').filter (·.kind != .cancel)

theorem labels_view (pc : PgConn) : pc.labels = pc.view.all.map (PgUnit.label none) := by
  rw [PgConn.labels, PgConn.view, UnitRing.all_map, List.map_map]
  apply List.map_congr_left
  intro u _
  cases hn : u.flags.noText with
  | true => simp [PgUnit.label, PgUnit.view, fillText, hn]
  | false => simp [PgUnit.label, PgUnit.view, fillText, hn]

namespace PgUnit
variable (prep : Option PgPrepCache)

theorem label_dataRow (ts : Nat) (u : PgUnit) : (u.dataRow ts).label prep = u.label prep := by
  rw [dataRow]
  split <;> rfl

theorem label_ready (ts : Nat) (u : PgUnit) : (u.ready ts).label prep = u.label prep := by
  rw [ready]
  split <;> rfl

end PgUnit

theorem closeReply_labels {g : PgUnit → PgUnit} {f : PgUnit → Label} (h : ∀ u, f (g u) = f u)
    (r : UnitRing PgUnit) : (closeReply g r).all.map f = r.all.map f := by
  rw [closeReply]
  split
  · exact UnitRing.all_modify h r
  · exact UnitRing.all_close h r

theorem errorReply_labels {g : PgUnit → PgUnit} {f : PgUnit → Label} (h : ∀ u, f (g u) = f u)
    (ha : ∀ u, f (PgUnit.aborted u) = f u) (r : UnitRing PgUnit) :
    (errorReply g r).all.map f = r.all.map f := by
  rw [errorReply]
  split
  · exact UnitRing.all_modify h r
  · exact UnitRing.all_abort h ha r

theorem ringReply_labels (m : Msg) (prep : Option PgPrepCache) (r : UnitRing PgUnit) :
    (ringReply m r).all.map (PgUnit.label prep) = r.all.map (PgUnit.label prep) := by
  simp only [ringReply]
  split
  · exact UnitRing.all_modify (PgUnit.label_dataRow prep m.ts) r
  · exact closeReply_labels (g := PgUnit.complete _ _) (fun _ => rfl) r
  · exact closeReply_labels (g := PgUnit.empty _) (fun _ => rfl) r
  · exact UnitRing.all_close (g := PgUnit.suspended _) (fun _ => rfl) r
  · exact errorReply_labels (g := PgUnit.error _ _) (fun _ => rfl) (fun _ => rfl) r
  · exact UnitRing.all_modify (g := PgUnit.funcResponse _) (fun _ => rfl) r
  · exact UnitRing.all_modify (g := PgUnit.copyBegin _) (fun _ => rfl) r
  · exact UnitRing.all_modify (g := PgUnit.copyBegin _) (fun _ => rfl) r
  · rfl

/-- What a step does to the units in flight: it keeps them, opens one behind them, or ends them all,
reporting some of them in order. -/
inductive Traced (s s' : PgState) : Option Label → Prop where
  | kept (hl : s'.pc.labels = s.pc.labels) (hq : unitQueries s s' = []) : Traced s s' none
  | opened (hl : s'.pc.labels = s.pc.labels ++ [l]) (hq : unitQueries s s' = []) : Traced s s' (some l)
  | ended (hl : s'.pc.labels = [])
      (hq : ((unitQueries s s').map QueryObs.label).Sublist s.pc.labels) : Traced s s' none

structure KeepsPrep (s s' : PgState) : Prop where
  prep : s'.pc.prep = s.pc.prep
  refs : s.pc.RefsOk → s'.pc.RefsOk
  traced : Traced s s' none

section
variable {s s' : PgState}

theorem unitQueries_nil (h : queries s'.p.out = queries s.p.out) : unitQueries s s' = [] := by
  rw [unitQueries, newQueries, h, List.drop_length]
  rfl

theorem KeepsPrep.ring (hprep : s'.pc.prep = s.pc.prep) (hout : queries s'.p.out = queries s.p.out)
    (hrefs : s.pc.ring.Forall (RefOk s.pc.prep) → s'.pc.ring.Forall (RefOk s.pc.prep))
    (hl : s'.pc.ring.all.map (PgUnit.label s.pc.prep) = s.pc.ring.all.map (PgUnit.label s.pc.prep)) :
    KeepsPrep s s' := by
  refine ⟨hprep, fun h => ?_, .kept ?_ (unitQueries_nil hout)⟩
  · rw [PgConn.RefsOk, hprep]
    exact hrefs h
  · rw [PgConn.labels, hprep]
    exact hl

theorem KeepsPrep.same (hprep : s'.pc.prep = s.pc.prep) (hout : queries s'.p.out = queries s.p.out)
    (hring : s'.pc.ring = s.pc.ring) : KeepsPrep s s' :=
  .ring hprep hout (by rw [hring]; exact id) (by rw [hring])

theorem KeepsPrep.ended (hprep : s'.pc.prep = s.pc.prep) (hring : s'.pc.ring = {})
    (hq : ((unitQueries s s').map QueryObs.label).Sublist s.pc.labels) : KeepsPrep s s' := by
  refine ⟨hprep, fun _ => ?_, .ended ?_ hq⟩
  · rw [PgConn.RefsOk, hring]
    exact fun _ hu => absurd hu List.not_mem_nil
  · rw [PgConn.labels, hring]
    rfl

theorem KeepsPrep.dropped (hprep : s'.pc.prep = s.pc.prep) (hout : queries s'.p.out = queries s.p.out)
    (hring : s'.pc.ring = {}) : KeepsPrep s s' := by
  apply KeepsPrep.ended hprep hring
  rw [unitQueries_nil hout]
  exact List.nil_sublist _

theorem readyUnits_labels (prep : Option PgPrepCache) (r : UnitRing PgUnit) (ts : Nat) :
    ((readyUnits r ts).map (PgUnit.label prep)).Sublist (r.all.map (PgUnit.label prep)) := by
  have hready : (readyUnits r ts).map (PgUnit.label prep) =
      (r.closed ++ r.opened.filter PgUnit.zClosed).map (PgUnit.label prep) := by
    rw [readyUnits, List.map_map]
    apply List.map_congr_left
    intro u _
    exact PgUnit.label_ready prep ts u
  rw [hready]
  exact (List.Sublist.append_left List.filter_sublist _).map _

theorem unitQueries_ready {us : List PgUnit} {ready : PgUnit → Nat} {status : Byte}
    (h : queries s'.p.out = queries s.p.out ++ us.map fun u => u.obs s.pc.prep (ready u) status) :
    ((unitQueries s s').map QueryObs.label).Sublist (us.map (PgUnit.label s.pc.prep)) := by
  have hnew : newQueries s s' = us.map fun u => u.obs s.pc.prep (ready u) status := by
    rw [newQueries, h]
    exact List.drop_left
  have hlabel : us.map (PgUnit.label s.pc.prep) = (newQueries s s').map QueryObs.label := by
    rw [hnew, List.map_map]
    rfl
  rw [hlabel, unitQueries]
  exact List.filter_sublist.map _

theorem KeepsPrep.settled {t : PgState} {us : List PgUnit} {ready : PgUnit → Nat}
    (hprep : t.pc.prep = s.pc.prep) (hring : t.pc.ring = {})
    (hout : queries t.p.out = queries s.p.out ++ us.map fun u => u.obs s.pc.prep (ready u) status)
    (hus : (us.map (PgUnit.label s.pc.prep)).Sublist s.pc.labels) : KeepsPrep s (trackTxn t ts status) := by
  obtain ⟨_, _, _, hring', hprep'⟩ := trackTxn_pc t ts status
  apply KeepsPrep.ended (hprep'.trans hprep) (hring'.trans hring)
  exact (unitQueries_ready ((trackTxn_queries t ts status).trans hout)).trans hus

theorem pgQueryReady_keepsPrep (s : PgState) (m : Msg) : KeepsPrep s (pgQueryReady s m) := by
  cases hlossy : s.pc.lossy with
  | true =>
    rw [pgQueryReady_lossy s m hlossy]
    exact @KeepsPrep.settled _ _ _ _ [] (fun _ => 0) rfl rfl (List.append_nil _).symm (List.nil_sublist _)
  | false =>
    obtain ⟨hpc, hout⟩ := emitUnit_foldl m (readyUnits s.pc.ring m.ts) s
    simp only [pgQueryReady_eq s m hlossy, hpc]
    exact .settled rfl rfl hout (readyUnits_labels s.pc.prep s.pc.ring m.ts)

theorem pgBackendMsg_keepsPrep (s : PgState) (m : Msg) : KeepsPrep s (pgBackendMsg s m) := by
  have hlabels := ringReply_labels m s.pc.prep s.pc.ring
  have hrefs (h : s.pc.ring.Forall (RefOk s.pc.prep)) := ringReply_refs m h
  rw [pgBackendMsg]
  split
  · exact .same rfl rfl rfl
  · cases hk : beKind m.type with
    | auth =>
      simp only [pgSessionAuth]
      split
      · exact .same rfl rfl rfl
      · split
        · exact .same rfl (by simp [LkProto.call, LkProto.bump, queries]) rfl
        · exact .same rfl rfl rfl
    | paramStatus =>
      simp only [pgSessionParamStatus]
      split
      · exact .same rfl rfl rfl
      · exact .same rfl rfl rfl
    | complete =>
      simp only [ringReply, hk] at hlabels hrefs
      simp only [pgQueryComplete]
      split
      · exact .same rfl rfl rfl
      · split
        · exact .ring rfl rfl (closeReply_refs (PgUnit.complete_apart _ _))
            (closeReply_labels (g := PgUnit.complete _ _) (fun _ => rfl) _)
        · split
          · exact .ring rfl rfl (closeReply_refs (PgUnit.complete_apart _ _))
              (closeReply_labels (g := PgUnit.complete _ _) (fun _ => rfl) _)
          · exact .dropped rfl rfl rfl
    | ready => exact pgQueryReady_keepsPrep s m
    | copyBoth => exact .dropped rfl rfl rfl
    | copyData =>
      exact .ring rfl rfl (fun h => h.modify (g := PgUnit.copyData m.len) fun _ hu => hu)
        (UnitRing.all_modify (g := PgUnit.copyData m.len) (fun _ => rfl) _)
    | neutral => exact .same rfl rfl rfl
    | unknown => exact .same rfl rfl rfl
    | _ =>
      simp only [ringReply, hk] at hlabels hrefs
      exact .ring rfl rfl hrefs hlabels

end

end Latkit
