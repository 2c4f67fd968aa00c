import Latkit.FpTable
import Latkit.HashChain

/-! The connection table as it lies in memory: entries in the chains of a hash table and, through further links, in the
list of last activity. -/

namespace Latkit
open DList (Linked)
open HashChain (Chain)

/-- The table; an entry is known by its address, and `brk` is the next address that `calloc` returns. -/
structure ConnHeap where
  maxConns : Nat
  idleTimeoutNs : Nat
  bucket : Nat → Option Nat := fun _ => none
  lru : DList.Links := {}
  hnext : Nat → Option Nat := fun _ => none
  cookie : Nat → UInt64 := fun _ => 0
  tls : Nat → Bool := fun _ => false
  lastActivityNs : Nat → Nat := fun _ => 0
  created : Nat := 0
  closed : Nat := 0
  evictedLru : Nat := 0
  evictedIdle : Nat := 0
  active : Nat := 0
  tlsActive : Nat := 0
  brk : Nat := 0

/-- What the pipeline is fed; `turnsTls` says whether the framer sees the connection go encrypted in this chunk. -/
inductive HeapEv where
  | open (cookie : UInt64) (ts : Nat)
  | close (cookie : UInt64) (ts : Nat)
  | data (cookie : UInt64) (ts : Nat) (decrypted turnsTls : Bool)
  | sweep (now : Nat)

namespace ConnHeap

def new (maxConns idleTimeoutNs : Nat) : ConnHeap := { maxConns := if maxConns = 0 then 1 else maxConns, idleTimeoutNs }

def hashBucket (t : ConnHeap) (cookie : UInt64) : Nat :=
  ((cookie * 0x9E3779B97F4A7C15) >>> 32).toNat % doubled (t.maxConns / 16) (t.maxConns / 16) 64

def lookup (t : ConnHeap) (cookie : UInt64) : Option (Option Nat) :=
  HashChain.walk t.hnext (fun a => t.cookie a = cookie) (t.brk + 1) (t.bucket (t.hashBucket cookie))

def touch (t : ConnHeap) (a ts : Nat) : ConnHeap :=
  { t with lastActivityNs := Function.update t.lastActivityNs a ts, lru := (t.lru.unlink a).pushFront a }

def destroy (t : ConnHeap) (a : Nat) : Option ConnHeap := do
  let b := t.hashBucket (t.cookie a)
  let slot ← HashChain.slotOf t.hnext a (t.brk + 1) none (t.bucket b)
  let t := match slot with
    | none => { t with bucket := Function.update t.bucket b (t.hnext a) }
    | some p => { t with hnext := Function.update t.hnext p (t.hnext a) }
  return { t with
    lru := t.lru.unlink a
    tlsActive := if t.tls a then t.tlsActive - 1 else t.tlsActive
    active := t.active - 1 }

def makeRoom (t : ConnHeap) : Option ConnHeap :=
  match t.lru.tail with
  | some v =>
    if t.maxConns ≤ t.active then (t.destroy v).map fun t => { t with evictedLru := t.evictedLru + 1 } else some t
  | none => some t

def link (t : ConnHeap) (cookie : UInt64) (ts : Nat) : ConnHeap :=
  let a := t.brk
  let b := t.hashBucket cookie
  { t with
    brk := a + 1
    cookie := Function.update t.cookie a cookie
    tls := Function.update t.tls a false
    lastActivityNs := Function.update t.lastActivityNs a ts
    hnext := Function.update t.hnext a (t.bucket b)
    bucket := Function.update t.bucket b (some a)
    lru := t.lru.pushFront a
    created := t.created + 1
    active := t.active + 1 }

def create (t : ConnHeap) (cookie : UInt64) (ts : Nat) : Option (Nat × ConnHeap) :=
  t.makeRoom.map fun t => (t.brk, t.link cookie ts)

def enter (t : ConnHeap) (cookie : UInt64) (ts : Nat) : Option (Nat × ConnHeap) := do
  match ← t.lookup cookie with
  | some a => return (a, t.touch a ts)
  | none => t.create cookie ts

def noteTlsOpen (t : ConnHeap) (a : Nat) : ConnHeap :=
  { t with tls := Function.update t.tls a true, tlsActive := t.tlsActive + 1 }

def idle (t : ConnHeap) (now a : Nat) : Bool := (t.lastActivityNs a + t.idleTimeoutNs) % 2 ^ 64 ≤ now

def sweep (now : Nat) : Nat → ConnHeap → Option ConnHeap
  | 0, _ => none
  | fuel + 1, t =>
    match t.lru.tail with
    | none => some t
    | some v =>
      if t.idle now v then do
        let t ← t.destroy v
        sweep now fuel { t with evictedIdle := t.evictedIdle + 1 }
      else some t

def feed (t : ConnHeap) : HeapEv → Option ConnHeap
  | .open cookie ts => (t.enter cookie ts).map Prod.snd
  | .close cookie ts => do
    match ← t.lookup cookie with
    | none => return t
    | some a =>
      let t ← (t.touch a ts).destroy a
      return { t with closed := t.closed + 1 }
  | .data cookie ts decrypted turnsTls => do
    let c ← t.lookup cookie
    match c.filter fun a => t.tls a && !decrypted with
    | some a => return t.touch a ts
    | none =>
      let (a, t) ← t.enter cookie ts
      -- a decrypted event proves it, else the framer may find out
      return if t.tls a = false ∧ (decrypted || turnsTls) = true then t.noteTlsOpen a else t
  | .sweep now => sweep now (t.active + 1) t

/-- The chains and the list hold the same entries, `l` by last activity and `chain b` those of bucket `b`. -/
structure Shape (t : ConnHeap) (l : List Nat) (chain : Nat → List Nat) : Prop where
  pos : 0 < t.maxConns
  linked : Linked t.lru l
  chained : ∀ b, Chain t.hnext (t.bucket b) (chain b)
  once : ∀ b, (chain b).Nodup
  same : ∀ a b, a ∈ chain b ↔ a ∈ l ∧ t.hashBucket (t.cookie a) = b
  cookies : ∀ a ∈ l, ∀ a' ∈ l, t.cookie a = t.cookie a' → a = a'
  active : t.active = l.length
  ceiling : l.length ≤ t.maxConns
  tlsActive : t.tlsActive = l.countP t.tls
  fresh : ∀ a ∈ l, a < t.brk

def Balanced (t : ConnHeap) : Prop := t.created = t.closed + t.evictedLru + t.evictedIdle + t.active

section
variable {t t' : ConnHeap} {l : List Nat} {chain : Nat → List Nat}

theorem Shape.chain_short (h : t.Shape l chain) (b : Nat) : (chain b).length ≤ t.brk := by
  have hsub : chain b ⊆ List.range t.brk := fun a ha => List.mem_range.mpr (h.fresh a ((h.same a b).mp ha).1)
  have hle := ((h.once b).subperm hsub).length_le
  rwa [List.length_range] at hle

theorem Shape.lookup (h : t.Shape l chain) (cookie : UInt64) :
    ∃ r, t.lookup cookie = some r ∧ ∀ a, r = some a ↔ a ∈ l ∧ t.cookie a = cookie := by
  have hshort := h.chain_short (t.hashBucket cookie)
  refine ⟨(chain (t.hashBucket cookie)).find? fun a => t.cookie a = cookie, (h.chained _).walk_eq (by omega),
    fun a => ⟨fun hfind => ?_, fun ⟨ha, hcookie⟩ => ?_⟩⟩
  · exact ⟨((h.same a _).mp (List.mem_of_find?_eq_some hfind)).1, by simpa using List.find?_some hfind⟩
  · have hmem := (h.same a (t.hashBucket cookie)).mpr ⟨ha, by rw [hcookie]⟩
    have hsome : ((chain (t.hashBucket cookie)).find? fun a => t.cookie a = cookie).isSome :=
      List.find?_isSome.mpr ⟨a, hmem, by simpa using hcookie⟩
    obtain ⟨a', ha'⟩ := Option.isSome_iff_exists.mp hsome
    have hl' := ((h.same a' _).mp (List.mem_of_find?_eq_some ha')).1
    have hcookie' : t.cookie a' = cookie := by simpa using List.find?_some ha'
    rw [ha', h.cookies a ha a' hl' (hcookie.trans hcookie'.symm)]

theorem Shape.touch (h : t.Shape l chain) (ha : a ∈ l) (ts : Nat) : ∃ l', (t.touch a ts).Shape l' chain ∧ ∀ x, x ∈ l' ↔ x ∈ l := by
  obtain ⟨l', hlinked, hperm, -, -⟩ := h.linked.moveFront ha
  refine ⟨a :: l', ⟨h.pos, hlinked, h.chained, h.once, fun x b => ?_, fun x hx y hy => ?_, h.active.trans hperm.length_eq.symm,
    hperm.length_eq ▸ h.ceiling, h.tlsActive.trans (hperm.countP_eq _).symm, fun x hx => h.fresh x (hperm.mem_iff.mp hx)⟩,
    fun x => hperm.mem_iff⟩
  · rw [h.same x b, hperm.mem_iff]
    rfl
  · exact h.cookies x (hperm.mem_iff.mp hx) y (hperm.mem_iff.mp hy)

theorem Shape.destroy (h : t.Shape l chain) (ha : a ∈ l) :
    ∃ t' l' chain', t.destroy a = some t' ∧ t'.Shape l' chain' ∧ t'.active + 1 = t.active ∧
      t' = { t with bucket := t'.bucket, hnext := t'.hnext, lru := t'.lru, tlsActive := t'.tlsActive, active := t'.active } ∧
      ∀ x ∈ l', x ∈ l := by
  have hown := (h.same a _).mpr ⟨ha, rfl⟩
  obtain ⟨xs, ys, hchain⟩ := List.append_of_mem hown
  obtain ⟨us, vs, rfl⟩ := List.append_of_mem ha
  have hchained := h.chained (t.hashBucket (t.cookie a))
  have honce := h.once (t.hashBucket (t.cookie a))
  have hshort := h.chain_short (t.hashBucket (t.cookie a))
  rw [hchain] at hchained honce hshort
  have hdrop : (xs ++ ys).Nodup := honce.sublist (List.Sublist.append_left (List.sublist_cons_self a ys) xs)
  have hfront : (a :: (xs ++ ys)).Nodup := List.perm_middle.nodup_iff.mp honce
  have hnot := (List.nodup_cons.mp hfront).1
  have hfrontl : (a :: (us ++ vs)).Nodup := List.perm_middle.nodup_iff.mp h.linked.nodup
  have hnotl := (List.nodup_cons.mp hfrontl).1
  have hperm : (us ++ a :: vs).Perm (a :: (us ++ vs)) := List.perm_middle
  have hslot := hchained.slotOf_eq (fun hmem => hnot (List.mem_append_left ys hmem))
    (show xs.length < t.brk + 1 by rw [List.length_append, List.length_cons] at hshort; omega) none
  rw [Option.or_none] at hslot
  have hsub : ∀ x ∈ us ++ vs, x ∈ us ++ a :: vs := fun x hx => hperm.mem_iff.mpr (List.mem_cons_of_mem a hx)
  let chain' := Function.update chain (t.hashBucket (t.cookie a)) (xs ++ ys)
  have hsame : ∀ x b, x ∈ chain' b ↔ x ∈ us ++ vs ∧ t.hashBucket (t.cookie x) = b := by
    intro x b
    have hlist : x ∈ us ++ a :: vs ↔ x = a ∨ x ∈ us ++ vs := hperm.mem_iff.trans List.mem_cons
    by_cases hb : b = t.hashBucket (t.cookie a)
    · have hxs : x ∈ xs ++ a :: ys ↔ x = a ∨ x ∈ xs ++ ys := List.perm_middle.mem_iff.trans List.mem_cons
      have hold := h.same x b
      rw [hb, hchain, hxs, hlist] at hold
      rw [show chain' b = xs ++ ys from hb ▸ Function.update_self .., hb]
      by_cases hxa : x = a
      · rw [hxa]
        exact ⟨fun hin => absurd hin hnot, fun hin => absurd hin.1 hnotl⟩
      · simpa [hxa] using hold
    · rw [show chain' b = chain b from Function.update_of_ne hb .., h.same x b, hlist]
      refine ⟨fun ⟨hor, hbucket⟩ => ⟨hor.resolve_left ?_, hbucket⟩, fun ⟨hin, hbucket⟩ => ⟨.inr hin, hbucket⟩⟩
      rintro rfl
      exact hb hbucket.symm
  have honce' : ∀ b, (chain' b).Nodup := by
    intro b
    by_cases hb : b = t.hashBucket (t.cookie a)
    · rw [hb, show chain' _ = xs ++ ys from Function.update_self ..]
      exact hdrop
    · rw [show chain' b = chain b from Function.update_of_ne hb ..]
      exact h.once b
  have hactive : t.active = (us ++ vs).length + 1 := by rw [h.active, hperm.length_eq, List.length_cons]
  have htls : t.tlsActive = (us ++ vs).countP t.tls + if t.tls a then 1 else 0 := by
    rw [h.tlsActive, hperm.countP_eq, List.countP_cons]
  have hceiling : (us ++ vs).length ≤ t.maxConns := by
    have := h.ceiling
    rw [hperm.length_eq, List.length_cons] at this
    omega
  have hshape : ∀ bucket hnext, (∀ b, Chain hnext (bucket b) (chain' b)) →
      Shape { t with bucket, hnext, lru := t.lru.unlink a, tlsActive := if t.tls a then t.tlsActive - 1 else t.tlsActive, active := t.active - 1 }
        (us ++ vs) chain' := by
    intro bucket hnext hchains
    refine ⟨h.pos, h.linked.unlink, hchains, honce', hsame, fun x hx y hy => h.cookies x (hsub x hx) y (hsub y hy), ?_, hceiling, ?_,
      fun x hx => h.fresh x (hsub x hx)⟩
    · show t.active - 1 = _
      omega
    · show (if t.tls a then t.tlsActive - 1 else t.tlsActive) = (us ++ vs).countP t.tls
      split at htls <;> simp_all
  have hrest : ∀ b, b ≠ t.hashBucket (t.cookie a) → chain' b = chain b := fun b hb => Function.update_of_ne hb ..
  cases hlast : xs.getLast? with
  | none =>
    rw [hlast] at hslot
    rw [List.getLast?_eq_none_iff] at hlast
    refine ⟨_, us ++ vs, chain', by simp only [ConnHeap.destroy, hslot, Option.bind_eq_bind, Option.bind_some]; rfl, hshape _ _ fun b => ?_,
      by show t.active - 1 + 1 = t.active; omega, rfl, hsub⟩
    by_cases hb : b = t.hashBucket (t.cookie a)
    · rw [hb, Function.update_self, show chain' _ = xs ++ ys from Function.update_self .., hlast]
      exact hchained.after
    · rw [Function.update_of_ne hb, hrest b hb]
      exact h.chained b
  | some p =>
    rw [hlast] at hslot
    refine ⟨_, us ++ vs, chain', by simp only [ConnHeap.destroy, hslot, Option.bind_eq_bind, Option.bind_some]; rfl, hshape _ _ fun b => ?_,
      by show t.active - 1 + 1 = t.active; omega, rfl, hsub⟩
    by_cases hb : b = t.hashBucket (t.cookie a)
    · rw [hb, show chain' _ = xs ++ ys from Function.update_self ..]
      exact hchained.relink hlast hdrop hchained.after
    · rw [hrest b hb]
      refine (h.chained b).congr fun x hx => Function.update_of_ne ?_ ..
      rintro rfl
      have hin := (h.same x (t.hashBucket (t.cookie a))).mp (by rw [hchain]; exact List.mem_append_left _ (List.mem_of_getLast? hlast))
      exact hb (((h.same x b).mp hx).2.symm.trans hin.2)

def Kept (t : ConnHeap) : Prop := t.Balanced ∧ ∃ l chain, t.Shape l chain

theorem Shape.removed (h : t.Shape l chain) (hbalanced : t.Balanced) (ha : a ∈ l) (g : ConnHeap → ConnHeap)
    (hg : ∀ t, g t = { t with closed := (g t).closed, evictedLru := (g t).evictedLru, evictedIdle := (g t).evictedIdle } ∧
      (g t).closed + (g t).evictedLru + (g t).evictedIdle = t.closed + t.evictedLru + t.evictedIdle + 1) :
    ∃ t' l' chain', (t.destroy a).map g = some t' ∧ t'.Shape l' chain' ∧ t'.Balanced ∧ t'.active + 1 = t.active ∧
      t'.maxConns = t.maxConns ∧ t'.cookie = t.cookie ∧ ∀ x ∈ l', x ∈ l := by
  obtain ⟨t₁, l₁, chain₁, hdestroy, hshape, hactive, hsame, hsub⟩ := h.destroy ha
  obtain ⟨hkeeps, hcounts⟩ := hg t₁
  have hactive' : (g t₁).active = t₁.active := by rw [hkeeps]
  have hcreated : (g t₁).created = t.created := by rw [hkeeps, hsame]
  have hgone : t₁.closed = t.closed ∧ t₁.evictedLru = t.evictedLru ∧ t₁.evictedIdle = t.evictedIdle := by
    rw [hsame]
    exact ⟨rfl, rfl, rfl⟩
  refine ⟨g t₁, l₁, chain₁, by rw [hdestroy]; rfl, ?_, ?_, by rw [hactive']; exact hactive, by rw [hkeeps, hsame], by rw [hkeeps, hsame], hsub⟩
  · rw [hkeeps]
    exact ⟨hshape.pos, hshape.linked, hshape.chained, hshape.once, hshape.same, hshape.cookies, hshape.active, hshape.ceiling,
      hshape.tlsActive, hshape.fresh⟩
  · rw [Balanced] at hbalanced ⊢
    omega

theorem Shape.makeRoom (h : t.Shape l chain) (hbalanced : t.Balanced) :
    ∃ t' l' chain', t.makeRoom = some t' ∧ t'.Shape l' chain' ∧ t'.Balanced ∧ l'.length < t'.maxConns ∧
      t'.cookie = t.cookie ∧ ∀ x ∈ l', x ∈ l := by
  have hpos := h.pos
  have hactive := h.active
  rw [ConnHeap.makeRoom, h.linked.tail]
  cases hlast : l.getLast? with
  | none =>
    rw [List.getLast?_eq_none_iff] at hlast
    exact ⟨t, l, chain, rfl, h, hbalanced, by rw [hlast]; exact hpos, rfl, fun _ => id⟩
  | some v =>
    dsimp only
    split
    · next hfull =>
      obtain ⟨t', l', chain', hmap, hshape, hbalanced', hless, hmax, hcookie, hsub⟩ :=
        h.removed hbalanced (List.mem_of_getLast? hlast) (fun t => { t with evictedLru := t.evictedLru + 1 })
          fun t => ⟨rfl, by dsimp only; omega⟩
      have hceiling := h.ceiling
      have hactive' := hshape.active
      exact ⟨t', l', chain', hmap, hshape, hbalanced', by omega, hcookie, hsub⟩
    · exact ⟨t, l, chain, rfl, h, hbalanced, by omega, rfl, fun _ => id⟩

theorem Shape.link {cookie : UInt64} (h : t.Shape l chain) (hless : l.length < t.maxConns) (hnew : ∀ a ∈ l, t.cookie a ≠ cookie) (ts : Nat) :
    (t.link cookie ts).Shape (t.brk :: l)
      (Function.update chain (t.hashBucket cookie) (t.brk :: chain (t.hashBucket cookie))) := by
  have hfresh : ∀ x ∈ l, x ≠ t.brk := fun x hx => Nat.ne_of_lt (h.fresh x hx)
  have hnot : t.brk ∉ l := fun hmem => hfresh _ hmem rfl
  have hold : ∀ x ∈ l, Function.update t.cookie t.brk cookie x = t.cookie x := fun x hx => Function.update_of_ne (hfresh x hx) ..
  have hinl : ∀ b x, x ∈ chain b → x ≠ t.brk := fun b x hx => hfresh x ((h.same x b).mp hx).1
  refine ⟨h.pos, h.linked.pushFront hnot, fun b => ?_, fun b => ?_, fun x b => ?_, ?_, ?_, hless, ?_, ?_⟩
  · show Chain (Function.update t.hnext t.brk _) (Function.update t.bucket (t.hashBucket cookie) (some t.brk) b) _
    by_cases hb : b = t.hashBucket cookie
    · rw [hb, Function.update_self, Function.update_self]
      refine ⟨rfl, ?_⟩
      rw [Function.update_self]
      exact (h.chained _).congr fun x hx => Function.update_of_ne (hinl _ x hx) ..
    · rw [Function.update_of_ne hb, Function.update_of_ne hb]
      exact (h.chained b).congr fun x hx => Function.update_of_ne (hinl b x hx) ..
  · by_cases hb : b = t.hashBucket cookie
    · rw [hb, Function.update_self]
      exact List.nodup_cons.mpr ⟨fun hmem => hinl _ _ hmem rfl, h.once _⟩
    · rw [Function.update_of_ne hb]
      exact h.once b
  · show _ ↔ _ ∧ t.hashBucket (Function.update t.cookie t.brk cookie x) = b
    by_cases hx : x = t.brk
    · rw [hx, Function.update_self]
      by_cases hb : b = t.hashBucket cookie
      · rw [hb, Function.update_self]
        exact ⟨fun _ => ⟨List.mem_cons_self, rfl⟩, fun _ => List.mem_cons_self⟩
      · rw [Function.update_of_ne hb]
        exact ⟨fun hmem => absurd rfl (hinl b _ hmem), fun hboth => absurd hboth.2.symm hb⟩
    · rw [Function.update_of_ne hx, List.mem_cons, or_iff_right hx, ← h.same x b]
      by_cases hb : b = t.hashBucket cookie
      · rw [hb, Function.update_self, List.mem_cons, or_iff_right hx]
      · rw [Function.update_of_ne hb]
  · intro x hx y hy heq
    change Function.update t.cookie t.brk cookie x = Function.update t.cookie t.brk cookie y at heq
    rcases List.mem_cons.mp hx with rfl | hx <;> rcases List.mem_cons.mp hy with rfl | hy
    · rfl
    · rw [Function.update_self, hold y hy] at heq
      exact absurd heq.symm (hnew y hy)
    · rw [Function.update_self, hold x hx] at heq
      exact absurd heq (hnew x hx)
    · rw [hold x hx, hold y hy] at heq
      exact h.cookies x hx y hy heq
  · exact congrArg (· + 1) h.active
  · show t.tlsActive = (t.brk :: l).countP (Function.update t.tls t.brk false)
    rw [List.countP_cons, Function.update_self, h.tlsActive]
    refine List.countP_congr fun x hx => ?_
    rw [Function.update_of_ne (hfresh x hx)]
  · intro x hx
    rcases List.mem_cons.mp hx with rfl | hx
    · exact Nat.lt_succ_self _
    · exact Nat.lt_succ_of_lt (h.fresh x hx)

theorem Shape.create {cookie : UInt64} (h : t.Shape l chain) (hbalanced : t.Balanced) (hnew : ∀ a ∈ l, t.cookie a ≠ cookie) (ts : Nat) :
    ∃ a t' l' chain', t.create cookie ts = some (a, t') ∧ t'.Shape l' chain' ∧ t'.Balanced ∧ a ∈ l' := by
  obtain ⟨t₁, l₁, chain₁, hroom, h₁, hbalanced₁, hless, hcookie, hsub⟩ := h.makeRoom hbalanced
  have hlink := h₁.link hless (fun x hx => by rw [hcookie]; exact hnew x (hsub x hx)) ts
  refine ⟨t₁.brk, t₁.link cookie ts, _, _, by rw [ConnHeap.create, hroom]; rfl, hlink, ?_, List.mem_cons_self⟩
  rw [Balanced] at hbalanced₁ ⊢
  show t₁.created + 1 = t₁.closed + t₁.evictedLru + t₁.evictedIdle + (t₁.active + 1)
  omega

theorem Shape.enter (h : t.Shape l chain) (hbalanced : t.Balanced) (cookie : UInt64) (ts : Nat) :
    ∃ a t' l' chain', t.enter cookie ts = some (a, t') ∧ t'.Shape l' chain' ∧ t'.Balanced ∧ a ∈ l' := by
  obtain ⟨r, hlookup, hr⟩ := h.lookup cookie
  rw [ConnHeap.enter, hlookup]
  cases r with
  | some a =>
    have ha := ((hr a).mp rfl).1
    obtain ⟨l', hshape, hmem⟩ := h.touch ha ts
    exact ⟨a, _, l', chain, rfl, hshape, hbalanced, (hmem a).mpr ha⟩
  | none => exact h.create hbalanced (fun a ha heq => nomatch (hr a).mpr ⟨ha, heq⟩) ts

theorem Shape.noteTlsOpen (h : t.Shape l chain) (ha : a ∈ l) (htls : t.tls a = false) : (t.noteTlsOpen a).Shape l chain := by
  refine { h with tlsActive := ?_ }
  obtain ⟨us, vs, rfl⟩ := List.append_of_mem ha
  have hperm : (us ++ a :: vs).Perm (a :: (us ++ vs)) := List.perm_middle
  have hnot := (List.nodup_cons.mp (hperm.nodup_iff.mp h.linked.nodup)).1
  have hcount : (us ++ vs).countP (Function.update t.tls a true) = (us ++ vs).countP t.tls := by
    refine List.countP_congr fun x hx => ?_
    rw [Function.update_of_ne]
    rintro rfl
    exact hnot hx
  have hold := h.tlsActive
  show t.tlsActive + 1 = (us ++ a :: vs).countP (Function.update t.tls a true)
  rw [hperm.countP_eq, List.countP_cons, htls] at hold
  rw [hperm.countP_eq, List.countP_cons, Function.update_self, hcount, hold]
  rfl

theorem Shape.sweep (now : Nat) (h : t.Shape l chain) (hbalanced : t.Balanced) (hfuel : t.active < fuel) :
    ∃ t', sweep now fuel t = some t' ∧ t'.Kept := by
  induction fuel generalizing t l chain with
  | zero => exact absurd hfuel (Nat.not_lt_zero _)
  | succ fuel ih =>
    rw [ConnHeap.sweep, h.linked.tail]
    cases hlast : l.getLast? with
    | none => exact ⟨t, rfl, hbalanced, l, chain, h⟩
    | some v =>
      dsimp only
      split
      · obtain ⟨t', l', chain', hmap, hshape, hbalanced', hless, -⟩ := h.removed hbalanced (List.mem_of_getLast? hlast)
          (fun t => { t with evictedIdle := t.evictedIdle + 1 }) fun t => ⟨rfl, by dsimp only; omega⟩
        obtain ⟨t₁, hdestroy, heq⟩ := Option.map_eq_some_iff.mp hmap
        simp only [hdestroy, Option.bind_eq_bind, Option.bind_some, heq]
        exact ih hshape hbalanced' (by omega)
      · exact ⟨t, rfl, hbalanced, l, chain, h⟩

theorem Kept.feed (h : t.Kept) (ev : HeapEv) : ∃ t', t.feed ev = some t' ∧ t'.Kept := by
  obtain ⟨hbalanced, l, chain, h⟩ := h
  cases ev with
  | «open» cookie ts =>
    obtain ⟨a, t', l', chain', henter, hshape, hbalanced', -⟩ := h.enter hbalanced cookie ts
    exact ⟨t', by rw [ConnHeap.feed, henter]; rfl, hbalanced', l', chain', hshape⟩
  | close cookie ts =>
    obtain ⟨r, hlookup, hr⟩ := h.lookup cookie
    rw [ConnHeap.feed, hlookup]
    cases r with
    | none => exact ⟨t, rfl, hbalanced, l, chain, h⟩
    | some a =>
      have ha := ((hr a).mp rfl).1
      obtain ⟨l₁, hshape, hmem⟩ := h.touch ha ts
      obtain ⟨t', l', chain', hmap, hshape', hbalanced', -⟩ := hshape.removed hbalanced ((hmem a).mpr ha)
        (fun t => { t with closed := t.closed + 1 }) fun t => ⟨rfl, by dsimp only; omega⟩
      obtain ⟨t₁, hdestroy, heq⟩ := Option.map_eq_some_iff.mp hmap
      simp only [hdestroy, Option.bind_eq_bind, Option.bind_some]
      exact ⟨t', congrArg some heq, hbalanced', l', chain', hshape'⟩
  | data cookie ts decrypted turnsTls =>
    obtain ⟨r, hlookup, hr⟩ := h.lookup cookie
    simp only [ConnHeap.feed, hlookup, Option.bind_eq_bind, Option.bind_some]
    cases hdrop : r.filter fun a => t.tls a && !decrypted with
    | some a =>
      have ha := ((hr a).mp (Option.filter_eq_some_iff.mp hdrop).1).1
      obtain ⟨l₁, hshape, -⟩ := h.touch ha ts
      exact ⟨_, rfl, hbalanced, l₁, chain, hshape⟩
    | none =>
      obtain ⟨a, t', l', chain', henter, hshape, hbalanced', ha⟩ := h.enter hbalanced cookie ts
      simp only [henter, Option.bind_some]
      refine ⟨_, rfl, ?_⟩
      split
      · next htls => exact ⟨hbalanced', l', chain', hshape.noteTlsOpen ha htls.1⟩
      · exact ⟨hbalanced', l', chain', hshape⟩
  | sweep now => exact h.sweep now hbalanced (Nat.lt_succ_self _)

theorem Kept.run (h : t.Kept) (evs : List HeapEv) : ∃ t', evs.foldlM ConnHeap.feed t = some t' ∧ t'.Kept := by
  induction evs generalizing t with
  | nil => exact ⟨t, rfl, h⟩
  | cons ev evs ih =>
    obtain ⟨t₁, hfeed, hkept⟩ := h.feed ev
    obtain ⟨t₂, hrest, hkept'⟩ := ih hkept
    exact ⟨t₂, by rw [List.foldlM_cons, hfeed]; exact hrest, hkept'⟩

theorem new_kept (maxConns idleTimeoutNs : Nat) : (new maxConns idleTimeoutNs).Kept := by
  refine ⟨rfl, [], fun _ => [], ?_, ⟨rfl, rfl, trivial, List.nodup_nil⟩, fun _ => rfl, fun _ => List.nodup_nil, fun _ _ => ⟨nofun, fun h => nomatch h.1⟩,
    nofun, rfl, Nat.zero_le _, rfl, nofun⟩
  show 0 < if maxConns = 0 then 1 else maxConns
  split <;> omega

end

end ConnHeap

/-- Any sequence of events leaves the table with the same entries in its chains and its list, and with its counters in
balance. -/
theorem connHeap_conserved (maxConns idleTimeoutNs : Nat) (evs : List HeapEv) :
    ∃ t l chain, evs.foldlM ConnHeap.feed (.new maxConns idleTimeoutNs) = some t ∧ t.Shape l chain ∧ t.Balanced := by
  obtain ⟨t, hrun, hbalanced, l, chain, hshape⟩ := (ConnHeap.new_kept maxConns idleTimeoutNs).run evs
  exact ⟨t, l, chain, hrun, hshape, hbalanced⟩

end Latkit
