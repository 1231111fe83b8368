import LakeKv.KeyedBlocks
import LakeKv.SampleBackend

namespace LakeKv

open Finmap Function List PoolView

variable {B : Backend} {ls : List Location}

theorem Tier.toWire_injective : Function.Injective Tier.toWire := by
  intro s t h
  cases s <;> cases t <;> first | rfl | exact absurd h (by decide)

theorem hasTier_iff {t : Tier} : hasTier ls t = true ↔ ∃ l ∈ ls, l.tier = t.toWire := by
  simp [hasTier]

variable {m : BlockMeta} {node : String}

theorem durable_iff : durable m = true ↔ (∃ l ∈ m.locations, l.tier = Tier.l2.toWire) ∨ m.l3Present = true := by
  rw [durable, Bool.or_eq_true, hasTier_iff]

theorem durable_of_keeps {m m' : BlockMeta} (h : durable m = true) (hl3 : m.l3Present = true → m'.l3Present = true)
    (hkeep : ∀ l ∈ m.locations, l.tier = Tier.l2.toWire → ∃ l' ∈ m'.locations, l'.tier = Tier.l2.toWire) :
    durable m' = true := by
  rw [durable_iff] at h ⊢
  rcases h with ⟨l, hl, ht⟩ | h
  · exact .inl (hkeep l hl ht)
  · exact .inr (hl3 h)

theorem mem_refreshFirst {tier : Int} (seg off : Nat) {l : Location}
    (h : l ∈ ls) : ∃ l' ∈ refreshFirst tier node seg off ls, l'.tier = l.tier ∧ l'.nodeId = l.nodeId := by
  induction ls with
  | nil => simp at h
  | cons x xs ih =>
    unfold refreshFirst
    split
    · rcases mem_cons.mp h with rfl | h
      · exact ⟨_, mem_cons_self, rfl, rfl⟩
      · exact ⟨l, mem_cons_of_mem _ h, rfl, rfl⟩
    rcases mem_cons.mp h with rfl | h
    · exact ⟨l, mem_cons_self, rfl, rfl⟩
    · obtain ⟨l', hl', hsame⟩ := ih h
      exact ⟨l', mem_cons_of_mem _ hl', hsame⟩

namespace PoolView

variable {Q : BlockMeta → Prop} {p q : PoolView B}

def AllMetas (Q : BlockMeta → Prop) (p : PoolView B) : Prop :=
  ∀ flat e, p.byFlat.lookup flat = some e → Q e.blockMeta

namespace AllMetas

theorem of_eq (h : p.AllMetas Q) (hq : q.byFlat = p.byFlat) : q.AllMetas Q :=
  fun f e he => h f e (hq ▸ he)

theorem erase {flat : Flat} (h : p.AllMetas Q) (hq : q.byFlat = p.byFlat.erase flat) : q.AllMetas Q := by
  intro f e he
  rw [hq, lookup_erase_if] at he
  split at he
  · simp at he
  · exact h f e he

theorem insert {flat : Flat} {x : Entry B} (h : p.AllMetas Q) (hx : Q x.blockMeta)
    (hq : q.byFlat = p.byFlat.insert flat x) : q.AllMetas Q := by
  intro f e he
  rw [hq, lookup_insert_if] at he
  split at he
  · cases he
    exact hx
  · exact h f e he

theorem new (cap : Nat) : (PoolView.new B cap).AllMetas Q := by
  intro f e he
  simp [PoolView.new] at he

theorem apply (hB : B.Lawful) {act : PoolAction B} (guard : act.Guard p)
    (register : ∀ b, act = .register b → Q b.blockMeta)
    (peel : ∀ m, Q m → Q { m with locations := peelLocations m.locations })
    (strip : ∀ m node, Q m → Q { m with
      locations := m.locations.filter fun l => ¬(l.tier = Tier.l0.toWire ∧ l.nodeId = node) })
    (publish : ∀ flat e tier node seg off present, act = .publish flat e tier node seg off present →
      Q e.blockMeta → Q { e.blockMeta with
        locations := publishedLocations tier node seg off present e.blockMeta.locations })
    (setL3 : ∀ flat e present, act = .setL3 flat e present → Q e.blockMeta → Q { e.blockMeta with l3Present := present })
    (relocate : ∀ flat e tier node seg off, act = .relocate flat e tier node seg off → Q e.blockMeta →
      Q { e.blockMeta with locations := relocatedLocations tier node seg off e.blockMeta.locations })
    (h : p.AllMetas Q) : (act.apply p).AllMetas Q := by
  cases act with
  | evict n =>
    refine dropInactiveVictims_induct hB (h.of_eq rfl) fun q seq _ hq => ?_
    unfold dropVictim
    split
    · exact hq
    dsimp only
    split
    · exact hq.of_eq rfl
    · exact hq.erase rfl
  | register b => exact h.insert (register b rfl) rfl
  | discard flat e => exact h.erase rfl
  | gcCold key pk n =>
    refine gcCold_induct hB key pk (h.of_eq rfl) ?_ ?_ ?_
    · intro q v flat e _ hq _ he
      exact hq.insert (peel e.blockMeta (hq flat e he)) (q.peel_byFlat flat v.1 e)
    · intro q seq flat e hq _ _ _ _
      exact hq.erase rfl
    · intro q v flat e _ hq _ _
      exact hq.of_eq (q.reinsertCold_frame v).2
  | setRef flat e kind value =>
    refine h.of_eq ?_
    rw [PoolAction.apply, setRef_eq]
  | touchRefs flat e => exact h.of_eq rfl
  | strip key pk node flat =>
    rw [PoolAction.apply]
    unfold stripFlat
    split
    · exact h
    next e he =>
      split
      · exact h
      · exact h.insert (strip e.blockMeta node (h flat e he)) (markAbsent_byFlat _ _ _)
  | clearMarks node => exact h.of_eq rfl
  | publish flat e tier node seg off present =>
    exact h.insert (publish flat e tier node seg off present rfl (h flat e guard.1))
      (publish_byFlat tier node seg off present guard.1)
  | setL3 flat e present => exact h.insert (setL3 flat e present rfl (h flat e guard)) rfl
  | relocate flat e tier node seg off =>
    exact h.insert (relocate flat e tier node seg off rfl (h flat e guard)) (p.relocate_byFlat flat e tier node seg off)
  | touchHits | markPlaced | recordHit => exact h.of_eq rfl

end AllMetas

end PoolView

/-- A block that a withdrawal of its L2 copy on a node leaves backed. -/
def BackedWithout (node : String) (m : BlockMeta) : Prop :=
  m.l3Present = true ∨ ∃ l ∈ m.locations, l.tier = Tier.l2.toWire ∧ l.nodeId ≠ node

section

variable (h : durable m = true)
include h

theorem durable_published {tier : Tier} {seg off : Nat} {present : Bool}
    (hleft : present = false → tier = .l2 → BackedWithout node m) :
    durable { m with locations := PoolView.publishedLocations tier node seg off present m.locations } = true := by
  unfold publishedLocations
  split
  · exact durable_of_keeps h id fun l hl ht => ⟨l, mem_append_left _ hl, ht⟩
  split
  · refine durable_of_keeps h id fun l hl ht => ?_
    obtain ⟨l', hl', ht', -⟩ := mem_refreshFirst seg off hl
    exact ⟨l', hl', ht'.trans ht⟩
  next hpresent =>
    split
    · by_cases htier : tier = .l2
      · rw [durable_iff]
        rcases hleft (by simpa using hpresent) htier with h3 | ⟨l, hl, ht, hn⟩
        · exact .inr h3
        · exact .inl ⟨l, mem_filter.mpr ⟨hl, by simp [hn]⟩, ht⟩
      · refine durable_of_keeps h id fun l hl ht => ⟨l, mem_filter.mpr ⟨hl, ?_⟩, ht⟩
        have hne : l.tier ≠ tier.toWire := by
          rw [ht]
          exact fun he => htier (Tier.toWire_injective he).symm
        simp [hne]
    · exact h

theorem durable_relocated (tier : Tier) (node : String) (seg off : Nat) :
    durable { m with locations := PoolView.relocatedLocations tier node seg off m.locations } = true := by
  unfold relocatedLocations
  split
  · refine durable_of_keeps h id fun l hl ht => ?_
    obtain ⟨l', hl', ht', -⟩ := mem_refreshFirst seg off hl
    exact ⟨l', hl', ht'.trans ht⟩
  · exact durable_of_keeps h id fun l hl ht => ⟨l, mem_append_left _ hl, ht⟩

theorem durable_stripped (node : String) :
    durable { m with locations := m.locations.filter fun l => ¬(l.tier = Tier.l0.toWire ∧ l.nodeId = node) } = true := by
  refine durable_of_keeps h id fun l hl ht => ⟨l, mem_filter.mpr ⟨hl, ?_⟩, ht⟩
  have hne : l.tier ≠ Tier.l0.toWire := by
    rw [ht]
    decide
  simp [hne]

end

theorem durable_fillNode (m : BlockMeta) (node : String) (id : Option KvBlockId) :
    durable { m with id := id, locations := m.locations.map (fillNode node) } = durable m := by
  have htier : ∀ l, (fillNode node l).tier = l.tier := by
    intro l
    unfold fillNode
    split <;> rfl
  simp [durable, hasTier, comp_def, htier]

/-- The calls that leave every block a durable copy: what is registered or restored has one, and no
withdrawal takes the last one. -/
def Op.Backs (a : Authority B) : Op → Prop
  | .register _ _ metas => ∀ m ∈ metas, m.id.isSome → durable m = true
  | .importSnapshot snap => ∀ cb ∈ snap.blocks, ∀ m, cb.blockMeta = some m → m.id.isSome → durable m = true
  | .publishLocationAt m r raw flat tier node _ _ present => present = false → tier = .l2 →
      ∀ pk e, resolvePoolKind raw = .ok pk → a.block? ⟨m, r, pk, flat⟩ = some e → BackedWithout node e.blockMeta
  | .setL3Present m r raw flat present => present = false →
      ∀ pk e, resolvePoolKind raw = .ok pk → a.block? ⟨m, r, pk, flat⟩ = some e →
        hasTier e.blockMeta.locations .l2 = true
  | _ => True

theorem poolMay_register_durable {a : Authority B} {op : Op} (hop : op.Backs a) {key : NamespaceKey} {pk : Int}
    {b : PlacedBlock B} (h : PoolMay op.May key pk (.register b)) : durable b.blockMeta = true := by
  obtain ⟨placed, hmay, hb⟩ := h
  obtain ⟨node, chain, metas, hcheck, rfl, hop'⟩ := may_registerAll hmay
  obtain ⟨m, hm, hplace⟩ := mem_filterMap.mp hb
  obtain ⟨id, hid, -, -, -, -, hmeta⟩ := placeBlock_eq_some hplace
  rw [hmeta, durable_fillNode]
  rcases hop' with rfl | ⟨snap, cb, row, rfl, hcb, hrow, rfl, rfl, rfl⟩
  · exact hop m hm (by simp [hid])
  cases List.mem_singleton.mp hm
  obtain ⟨m, id, hm, hid, -, -, pk, -, hrow⟩ := importRow_eq_ok hrow
  rw [hrow]
  exact hop cb hcb m hm (by simp [hid])

namespace Authority

variable {a : Authority B} {hit : ReusableBlock} {requester : String}

def Backed (a : Authority B) : Prop :=
  ∀ key pk p, a.pool? key pk = some p → p.AllMetas fun m => durable m = true

theorem step_backed (hB : B.Lawful) {op : Op} (hop : op.Backs a) (h : a.Backed) : (a.step op).Backed := by
  refine step_pools_found (fun _ _ cap => .new cap) (fun key pk p act hmay hfound hguard hp => ?_) h
  refine hp.apply hB hguard ?_ ?_ ?_ ?_ ?_ ?_
  · rintro b rfl
    exact poolMay_register_durable hop hmay
  · exact fun m hm => (durable_peel m).trans hm
  · exact fun m node hm => durable_stripped hm node
  · rintro flat e tier node seg off present rfl hm
    refine durable_published hm fun hpresent htier => ?_
    cases op with
    | publishLocationAt m r raw flat' tier' node' seg' off' present' =>
      cases hmay with
      | publish hpk => exact hop hpresent htier pk e hpk hfound
    | _ => contradiction
  · rintro flat e present rfl hm
    cases op with
    | setL3Present m r raw flat' present' =>
      cases hmay with
      | setL3 hpk =>
        cases present with
        | true => simp [durable]
        | false => simp [durable, hop rfl pk e hpk hfound]
    | _ => contradiction
  · exact fun flat e tier node seg off _ hm => durable_relocated hm tier node seg off

theorem lookupLoop_mem {p : PoolView B} {steps : List (Flat × B.Seq)} (h : hit ∈ (p.lookupLoop requester steps).1) :
    ∃ flat e, p.byFlat.lookup flat = some e ∧ hit.blockMeta = some e.blockMeta := by
  induction steps with
  | nil => simp [lookupLoop] at h
  | cons s rest ih =>
    obtain ⟨flat, seq⟩ := s
    unfold lookupLoop at h
    split at h
    · simp at h
    next e he =>
      split at h
      · simp at h
      rcases mem_cons.mp h with rfl | h
      · exact ⟨flat, e, he, rfl⟩
      · exact ih h

theorem lookupPrefix_mem {m r : String} {raw : Int} {chain : List Flat}
    (h : hit ∈ (a.lookupPrefix m r raw chain requester).1) :
    ∃ pk p flat e, a.pool? ⟨m, r⟩ pk = some p ∧ p.byFlat.lookup flat = some e ∧ hit.blockMeta = some e.blockMeta := by
  unfold lookupPrefix at h
  split at h
  · simp at h
  split at h
  · simp at h
  next p hp =>
    unfold lookupPool at hp
    split at hp
    · simp at hp
    next pk _ =>
      obtain ⟨flat, e, he, hmeta⟩ := lookupLoop_mem h
      exact ⟨pk, p, flat, e, hp, he, hmeta⟩

/-- In every run whose calls back their blocks, every registered block has a copy in L2 or L3, and so
has every block that a prefix lookup returns. -/
theorem published_blocks_backed (hB : B.Lawful) (h : ReachableBy (fun a op => op.Backs a) a) :
    (∀ k e, a.block? k = some e → durable e.blockMeta = true) ∧
      ∀ m r raw chain requester, ∀ hit ∈ (a.lookupPrefix m r raw chain requester).1,
        ∃ found, hit.blockMeta = some found ∧ durable found = true := by
  have hbacked : a.Backed := by
    refine Reach.invariant (I := Backed) ?_ ?_ h
    · intro s hs key pk p hp
      simp [initial_pool? hs] at hp
    · exact fun s op hI hop => step_backed hB hop hI
  constructor
  · intro k e he
    obtain ⟨p, hp, he⟩ := block?_eq_some.mp he
    exact hbacked _ _ p hp k.flat e he
  · intro m r raw chain requester hit hhit
    obtain ⟨pk, p, flat, e, hp, he, hmeta⟩ := lookupPrefix_mem hhit
    exact ⟨e.blockMeta, hmeta, hbacked _ pk p hp flat e he⟩

/-- A block is registered in L2, gets to L3 and is withdrawn from L2. -/
def backedRun : List Op :=
  [.registerModel (sampleModel 0 0), .register "n" [[1]] [sampleMeta 1], .setL3Present "m" "r" 1 [1] true,
    .publishLocationAt "m" "r" 1 [1] .l2 "n" 1 0 false]

theorem published_blocks_backed_withdrawn : (sampleRun backedRun).ReachableBy (fun a op => op.Backs a) ∧
      ∀ k e, (sampleRun backedRun).block? k = some e → durable e.blockMeta = true := by
  have hreach : (sampleRun backedRun).ReachableBy fun a op => op.Backs a := by
    refine sampleRun_reachableBy _ ⟨trivial, ?_, nofun, ?_, trivial⟩
    · intro m hm _
      cases List.mem_singleton.mp hm
      decide
    · intro _ _ pk e hpk he
      cases Except.ok.inj hpk
      have hl3 : ((sampleRun (backedRun.take 3)).block? ⟨"m", "r", 1, [1]⟩).map (fun e => e.blockMeta.l3Present) =
          some true := by decide
      rw [show (sampleRun (backedRun.take 3)).block? ⟨"m", "r", 1, [1]⟩ = some e from he] at hl3
      exact .inl (Option.some.inj hl3)
  exact ⟨hreach, (published_blocks_backed sampleBackend_lawful hreach).1⟩

def volatileMeta (f : UInt8) : BlockMeta :=
  { sampleMeta f with locations := [sampleLocation .l0 "n"] }

/-- `register` takes a block without any durable copy. When its node dies, a prefix lookup still returns
the block, which is nowhere. -/
theorem volatile_block_hit_points_nowhere :
    (sampleRun [.registerModel (sampleModel 0 0), .register "n" [[1]] [volatileMeta 1],
        .reconcileDeadNode "n"]).Reachable ∧
      ((sampleRun [.registerModel (sampleModel 0 0), .register "n" [[1]] [volatileMeta 1]]).lookupPrefix
        "m" "r" 1 [[1]] "n").1.map ReusableBlock.blockMeta = [some (volatileMeta 1)] ∧
      durable (volatileMeta 1) = false ∧
      ((sampleRun [.registerModel (sampleModel 0 0), .register "n" [[1]] [volatileMeta 1],
        .reconcileDeadNode "n"]).lookupPrefix "m" "r" 1 [[1]] "n").1.map ReusableBlock.blockMeta =
          [some { volatileMeta 1 with locations := [] }] :=
  ⟨sampleRun_reachable _, by decide, by decide, by decide⟩

end Authority

end LakeKv
