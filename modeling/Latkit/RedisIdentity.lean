import Latkit.NormRedis
import Latkit.Registry
import Latkit.Bisect

namespace Latkit

/-! The identity of a command as the table states it, and when the lookup returns it. -/

def LkRedisArg.folded (t : LkRedisArg) : List Byte := t.text.map asciiUpper

def entScan (lo n : Nat) (key : List Byte) : Option Nat :=
  (List.range' lo n).find? fun i => (redisEntAt i).key == key

def namedCommand (v : LkRedisArgv) : Option Nat := v.head?.bind fun t => entScan 0 lkRedisNcmd t.folded

/-- The identity by scans alone: an unknown subcommand is its container's `other`. -/
def redisIdentity (v : LkRedisArgv) : Nat :=
  match namedCommand v with
  | none => lkRedisCmdOther
  | some id =>
    if .container ∉ (redisEntAt id).flags then id
    else
      match v[1]? with
      | none => id
      | some t =>
        (entScan (redisEntAt id).subFirst (redisEntAt id).subN t.folded).getD (redisEntAt id).subOther

def NamesContainer (v : LkRedisArgv) : Prop :=
  ∃ id, namedCommand v = some id ∧ .container ∈ (redisEntAt id).flags

/-- A container with a subcommand that is empty, or longer than the folding's scratch. -/
def SubcommandUnfit (v : LkRedisArgv) : Prop :=
  NamesContainer v ∧ ∃ t, v[1]? = some t ∧ (t.text = [] ∨ lkRedisNameMax ≤ t.text.length)

theorem upper_eq (t : LkRedisArg) :
    upper t = if t.folded = [] ∨ lkRedisNameMax ≤ t.folded.length then none else some t.folded := by
  simp only [upper, LkRedisArg.folded, List.map_eq_nil_iff, List.length_map]

theorem upper_none : upper t = none ↔ t.text = [] ∨ lkRedisNameMax ≤ t.text.length := by
  rw [upper]
  split
  · next h => simp only [h]
  · next h => simp only [h, reduceCtorEq]

theorem upper_some (h : upper t = some key) : key = t.folded := by
  rw [upper_eq] at h
  split at h
  · cases h
  · cases h
    rfl

theorem bytesCmp_eq {a b : List Byte} : bytesCmp a b = .eq ↔ a = b := by
  induction a generalizing b with
  | nil => cases b <;> simp [bytesCmp]
  | cons x a ih =>
    cases b with
    | nil => simp [bytesCmp]
    | cons y b =>
      rw [bytesCmp, List.cons.injEq, ← ih]
      split
      · next h => simp [UInt8.ne_of_lt h]
      · split
        · next h => simp [(UInt8.ne_of_lt h).symm]
        · next h h' =>
          have : x = y := UInt8.le_antisymm (UInt8.not_lt.mp h') (UInt8.not_lt.mp h)
          simp [this]

theorem bytesCmp_above (h : bytesCmp a b = .lt) (hk : bytesCmp a k ≠ .lt) : bytesCmp b k = .gt := by
  induction a generalizing b k with
  | nil =>
    cases k with
    | nil =>
      cases b with
      | nil => cases h
      | cons y b => rfl
    | cons z k => exact absurd rfl hk
  | cons x a ih =>
    cases b with
    | nil => cases h
    | cons y b =>
      cases k with
      | nil => rfl
      | cons z k =>
        have hzx : ¬ x < z := fun hlt => hk (by rw [bytesCmp, if_pos hlt])
        rw [bytesCmp, if_neg hzx] at hk
        rw [bytesCmp] at h
        rw [bytesCmp]
        split at h
        · next hxy =>
          have hzy : z < y := UInt8.lt_of_le_of_lt (UInt8.not_lt.mp hzx) hxy
          rw [if_neg (UInt8.not_lt.mpr (UInt8.le_of_lt hzy)), if_pos hzy]
        · next hxy =>
          split at h
          · cases h
          · next hyx =>
            have hxy : x = y := UInt8.le_antisymm (UInt8.not_lt.mp hyx) (UInt8.not_lt.mp hxy)
            subst hxy
            rw [if_neg hzx]
            split
            · rfl
            · next hz =>
              rw [if_neg hz] at hk
              exact ih h hk

theorem bytesCmp_trans (h : bytesCmp a b = .lt) (h' : bytesCmp b c = .lt) : bytesCmp a c = .lt := by
  by_contra hne
  rw [bytesCmp_above h hne] at h'
  cases h'

def RedisEnt.codes (e : RedisEnt) : List Byte := (e.name.toUTF8.data.toList.take e.nameLen).drop e.keyOff

theorem RedisEnt.key_codes (e : RedisEnt) : e.key = e.codes := by
  rw [RedisEnt.key, RedisEnt.codes, ByteArray.toList, toList_loop]
  rfl

def RangeSorted (lo n : Nat) : Prop :=
  lo + n ≤ redisTab.length ∧
    ((redisTab.drop lo).take n).IsChain fun a b => bytesCmp a.codes b.codes = .lt

instance : Decidable (RangeSorted lo n) := inferInstanceAs (Decidable (_ ∧ _))

theorem redisTab_commands_sorted : RangeSorted 0 lkRedisNcmd := by decide +kernel

theorem redisTab_containers : ∀ e ∈ redisCommands, LkRedisC.container ∈ e.flags →
    lkRedisNcmd ≤ e.subOther ∧ RangeSorted e.subFirst e.subN := by
  decide +kernel

theorem redisTab_fits : ∀ e ∈ redisTab, e.codes ≠ [] ∧ e.codes.length < lkRedisNameMax := by decide +kernel

theorem redisEntAt_mem (i : Nat) : redisEntAt i ∈ redisTab := by
  rcases Nat.lt_or_ge i redisTab.length with hi | hi
  · rw [redisEntAt, List.getD_eq_getElem _ _ hi]
    exact List.getElem_mem hi
  · rw [redisEntAt, List.getD_eq_default _ _ hi]
    exact List.mem_append_right _ List.mem_cons_self

theorem redisEntAt_command (h : i < lkRedisNcmd) : redisEntAt i ∈ redisCommands := by
  have hlen : redisCommands.length = lkRedisNcmd := by decide +kernel
  have hi : i < redisTab.length := by
    rw [redisTab, List.append_assoc, List.length_append]
    omega
  rw [redisEntAt, List.getD_eq_getElem _ _ hi]
  simp only [redisTab, List.append_assoc]
  rw [List.getElem_append_left (by omega)]
  exact List.getElem_mem _

theorem RangeSorted.key_lt (h : RangeSorted lo n) (hi : lo ≤ i) (hij : i < j) (hj : j < lo + n) :
    bytesCmp (redisEntAt i).key (redisEntAt j).key = .lt := by
  have htrans : IsTrans RedisEnt fun a b => bytesCmp a.codes b.codes = .lt := ⟨fun _ _ _ => bytesCmp_trans⟩
  have hp := List.isChain_iff_pairwise.mp h.2
  have hlen : ((redisTab.drop lo).take n).length = n := by
    rw [List.length_take, List.length_drop]
    have := h.1
    omega
  have hlt := List.pairwise_iff_getElem.mp hp (i - lo) (j - lo) (by omega) (by omega) (by omega)
  simp only [List.getElem_take, List.getElem_drop] at hlt
  have hlast := h.1
  rw [redisEntAt, redisEntAt, List.getD_eq_getElem _ _ (by omega), List.getD_eq_getElem _ _ (by omega),
    RedisEnt.key_codes, RedisEnt.key_codes]
  simp only [show lo + (i - lo) = i by omega, show lo + (j - lo) = j by omega] at hlt
  exact hlt

theorem RangeSorted.rising (h : RangeSorted lo n) (key : List Byte) :
    Rising (fun i => bytesCmp (redisEntAt i).key key) lo (lo + n) := by
  intro i j hi hij hj hne
  exact bytesCmp_above (h.key_lt hi hij hj) hne

theorem entSearch_bisect (key : List Byte) (n l r : Nat) :
    entSearch key n l r = bisect (fun i => bytesCmp (redisEntAt i).key key) n l r := by
  induction n generalizing l r with
  | zero => rfl
  | succ n ih =>
    rw [entSearch, bisect]
    by_cases hlt : l < r
    · rw [if_pos hlt, if_pos hlt]
      dsimp only
      cases bytesCmp (redisEntAt (l + (r - l) / 2)).key key with
      | eq => rfl
      | lt => exact ih _ _
      | gt => exact ih _ _
    · rw [if_neg hlt, if_neg hlt]

theorem RangeSorted.entFind_eq (h : RangeSorted lo n) (key : List Byte) :
    entFind lo n key = (entScan lo n key).getD (lo + n) := by
  have hkey (i : Nat) : (bytesCmp (redisEntAt i).key key == .eq) = ((redisEntAt i).key == key) := by
    rw [Bool.eq_iff_iff, beq_iff_eq, beq_iff_eq, bytesCmp_eq]
  rw [entFind, entSearch_bisect, bisect_eq_find (h.rising key), entScan]
  simp only [hkey]

theorem entScan_range (h : entScan lo n key = some i) : lo ≤ i ∧ i < lo + n :=
  List.mem_range'_1.mp (List.mem_of_find?_eq_some h)

theorem entScan_unfit (h : upper t = none) : entScan lo n t.folded = none := by
  apply List.find?_eq_none.mpr
  intro i _ heq
  have hfit := redisTab_fits _ (redisEntAt_mem i)
  rw [← RedisEnt.key_codes, beq_iff_eq.mp heq] at hfit
  rw [upper_eq, if_neg (by rintro (hnil | hlong); exacts [hfit.1 hnil, absurd hfit.2 (by omega)])] at h
  cases h

theorem RangeSorted.entFind_or (h : RangeSorted lo n) (key : List Byte) (o : Nat) :
    (if lo + n ≤ entFind lo n key then o else entFind lo n key) = (entScan lo n key).getD o := by
  rw [h.entFind_eq]
  cases hs : entScan lo n key with
  | none => rw [Option.getD_none, Option.getD_none, if_pos (Nat.le_refl _)]
  | some i =>
    have := entScan_range hs
    rw [Option.getD_some, Option.getD_some, if_neg (by omega)]

theorem lkRedisCmd_named (v : LkRedisArgv) :
    lkRedisCmd v =
      match namedCommand v with
      | none => lkRedisCmdOther
      | some id =>
        if .container ∉ (redisEntAt id).flags then id
        else
          match v[1]? with
          | none => id
          | some t =>
            if upper t = none then id
            else (entScan (redisEntAt id).subFirst (redisEntAt id).subN t.folded).getD (redisEntAt id).subOther := by
  cases v with
  | nil => rfl
  | cons t v =>
    rw [lkRedisCmd, namedCommand, List.head?_cons, Option.bind_some, Option.bind_some]
    cases hu : upper t with
    | none => rw [entScan_unfit hu]
    | some key =>
      cases upper_some hu
      simp only [redisTab_commands_sorted.entFind_eq]
      cases hs : entScan 0 lkRedisNcmd t.folded with
      | none => rw [Option.getD_none, Nat.zero_add, if_pos (Nat.le_refl _)]
      | some id =>
        have hid : id < lkRedisNcmd := by
          have := entScan_range hs
          omega
        simp only [Option.getD_some]
        rw [if_neg (by omega)]
        by_cases hc : LkRedisC.container ∉ (redisEntAt id).flags
        · rw [if_pos hc, if_pos hc]
        · rw [if_neg hc, if_neg hc]
          cases h1 : (t :: v)[1]? with
          | none => rfl
          | some s =>
            rw [Option.bind_some]
            cases hs : upper s with
            | none => simp only [hs, if_true]
            | some key =>
              cases upper_some hs
              have hsub := redisTab_containers _ (redisEntAt_command hid) (not_not.mp hc)
              simp only [hs, hsub.2.entFind_or, reduceCtorEq, if_false]

/-- The lookup is the identity the table states, but for a container whose subcommand is as empty or as
long as no name. -/
theorem lkRedisCmd_identity (v : LkRedisArgv) : lkRedisCmd v = redisIdentity v ↔ ¬ SubcommandUnfit v := by
  rw [lkRedisCmd_named, redisIdentity, SubcommandUnfit, NamesContainer]
  simp only [← upper_none]
  cases hn : namedCommand v with
  | none => simp
  | some id =>
    have hid : id < lkRedisNcmd := by
      obtain ⟨t, -, hs⟩ := Option.bind_eq_some_iff.mp hn
      have := entScan_range hs
      omega
    by_cases hc : LkRedisC.container ∈ (redisEntAt id).flags
    · cases h1 : v[1]? with
      | none => simp
      | some t =>
        have hsub := redisTab_containers _ (redisEntAt_command hid) hc
        by_cases hu : upper t = none
        · have hne : id ≠ (redisEntAt id).subOther := by omega
          simpa [hc, hu, entScan_unfit hu] using hne
        · simp [hu]
    · simp [hc]

theorem namedCommand_fold {v w : LkRedisArgv} (h : v.head?.map LkRedisArg.folded = w.head?.map LkRedisArg.folded) :
    namedCommand v = namedCommand w := by
  have hmap (v : LkRedisArgv) : namedCommand v = (v.head?.map LkRedisArg.folded).bind (entScan 0 lkRedisNcmd) := by
    rw [namedCommand, Option.bind_map]
    rfl
  rw [hmap, hmap, h]

theorem lkRedisCmd_fold {v w : LkRedisArgv} (h : v.head?.map LkRedisArg.folded = w.head?.map LkRedisArg.folded)
    (hsub : NamesContainer v → v[1]?.map LkRedisArg.folded = w[1]?.map LkRedisArg.folded) :
    lkRedisCmd v = lkRedisCmd w := by
  rw [lkRedisCmd_named, lkRedisCmd_named, ← namedCommand_fold h]
  cases hn : namedCommand v with
  | none => rfl
  | some id =>
    by_cases hc : LkRedisC.container ∈ (redisEntAt id).flags
    · have h1 := hsub ⟨id, hn, hc⟩
      cases hv : v[1]? with
      | none =>
        cases hw : w[1]? with
        | none => rfl
        | some s => rw [hv, hw] at h1; cases h1
      | some t =>
        cases hw : w[1]? with
        | none => rw [hv, hw] at h1; cases h1
        | some s =>
          rw [hv, hw, Option.map_some, Option.map_some, Option.some.injEq] at h1
          have hu : upper t = upper s := by rw [upper_eq, upper_eq, h1]
          simp only [h1, hu]
    · simp only [hc, not_false_eq_true, if_true]

/-- The lookup returns what scans of the table return exactly when no container stands before an empty or
over-long subcommand, and it never depends on letter case or on the elements behind the name. -/
theorem lkRedisCmd_lookup (v : LkRedisArgv) :
    (lkRedisCmd v = redisIdentity v ↔ ¬ SubcommandUnfit v) ∧
      ∀ w : LkRedisArgv, v.head?.map LkRedisArg.folded = w.head?.map LkRedisArg.folded →
        (NamesContainer v → v[1]?.map LkRedisArg.folded = w[1]?.map LkRedisArg.folded) →
        lkRedisCmd v = lkRedisCmd w :=
  ⟨lkRedisCmd_identity v, fun _ => lkRedisCmd_fold⟩

def configArg : LkRedisArg := ⟨0, [67, 79, 78, 70, 73, 71]⟩
def configArgLower : LkRedisArg := ⟨0, [99, 111, 110, 102, 105, 103]⟩

theorem namedCommand_config (v : LkRedisArgv) : namedCommand (configArg :: v) = some 22 := by
  rw [namedCommand, List.head?_cons, Option.bind_some]
  simp only [entScan, RedisEnt.key_codes]
  decide +kernel

theorem lkRedisCmd_lookup_config :
    lkRedisCmd [configArg, ⟨7, [71, 69, 84]⟩, ⟨11, [42]⟩] = lkRedisCmd [configArgLower, ⟨7, [103, 101, 116]⟩] ∧
      lkRedisCmd [configArg, ⟨7, [71, 69, 84]⟩] = redisIdentity [configArg, ⟨7, [71, 69, 84]⟩] := by
  refine ⟨(lkRedisCmd_lookup _).2 _ (by decide) (fun _ => by decide), (lkRedisCmd_lookup _).1.mpr ?_⟩
  rintro ⟨-, t, ht, hu⟩
  cases ht
  exact absurd hu (by decide)

/-- A subcommand of 32 bytes is taken for none at all. -/
theorem lkRedisCmd_lookup_overlong :
    lkRedisCmdName (lkRedisCmd [configArg, ⟨7, List.replicate 32 88⟩]) = "CONFIG" ∧
      lkRedisCmdName (redisIdentity [configArg, ⟨7, List.replicate 32 88⟩]) = "CONFIG|other" := by
  have hu : upper ⟨7, List.replicate 32 88⟩ = none := by decide
  have hc : LkRedisC.container ∈ (redisEntAt 22).flags := by decide +kernel
  rw [lkRedisCmd_named, redisIdentity, namedCommand_config]
  simp only [hc, not_true_eq_false, if_false, List.getElem?_cons_succ, List.getElem?_cons_zero, hu, if_true,
    entScan_unfit hu, Option.getD_none]
  decide +kernel

end Latkit
