import LakeKv.BatchRegistration
import LakeKv.PutEndFailures
import LakeKv.SampleBackend

namespace LakeKv

open Bool Finmap List PutEndSession

namespace PutEndSession

variable {s : PutEndSession} {node : String}

def key (s : PutEndSession) : NamespaceKey :=
  ⟨s.modelId, s.revision⟩

/-- A session of the node as `put_start` fills it. What attempts have noted in it is left open. -/
structure Built (node : String) (s : PutEndSession) : Prop where
  node : s.nodeId = node
  chain : s.prefixHashes = s.hashes
  ids : s.blocks.map PendingBlock.id = s.hashes.map (publicId s.key poolTarget)

theorem Built.putStart (built : Built node s) (h : Flat) (bytes : List UInt8) : Built node (s.putStart h bytes) := by
  refine ⟨built.node, ?_, ?_⟩
  · change s.prefixHashes ++ [h] = (s.blocks ++ [_]).map _
    rw [map_append, built.chain]
    rfl
  · change (s.blocks ++ [_]).map _ = ((s.blocks ++ [_]).map _).map _
    rw [map_append, map_append, map_append, built.ids]
    rfl

theorem opened_built (requestId modelId revision : String) (puts : List (Flat × List UInt8)) :
    Built node (opened requestId node modelId revision puts) := by
  have all : ∀ s, Built node s → Built node (puts.foldl (fun s p => s.putStart p.1 p.2) s) := by
    induction puts with
    | nil => exact fun _ => id
    | cons p puts ih => exact fun s built => ih _ (built.putStart p.1 p.2)
  exact all _ ⟨rfl, rfl, rfl⟩

variable (built : Built node s)
include built

theorem Built.poolKind : s.poolKind = poolTarget := by
  have ids := built.ids
  unfold PutEndSession.poolKind
  cases blocks : s.blocks with
  | nil => rfl
  | cons b bs =>
    have first : b.id = publicId s.key poolTarget b.id.blockHash := by
      unfold hashes at ids
      rw [blocks] at ids
      exact (List.cons.inj ids).1
    change b.id.poolKind = poolTarget
    rw [first]
    rfl

theorem Built.id_of_mem {b : PendingBlock} (mem : b ∈ s.blocks) : b.id = publicId s.key poolTarget b.id.blockHash := by
  have ids := built.ids
  unfold hashes at ids
  rw [map_map] at ids
  exact map_inj_left.mp ids b mem

theorem Built.batchIds {σ : Type} (S : TierStore σ) (store : σ) :
    batchIds (s.registerRequest S store).blocks = s.hashes.map (publicId s.key poolTarget) := by
  rw [← built.ids]
  unfold LakeKv.batchIds registerRequest
  rw [filterMap_map]
  exact filterMap_eq_map' ▸ rfl

end PutEndSession

structure Agent (B : Backend) where
  store : LocalTierEngine
  authority : Authority B
  committed : List (NamespaceKey × Flat)

structure CommitCall where
  session : PutEndSession
  replies : PortCall → Nat → Reply

def targetKey (c : NamespaceKey × Flat) : BlockKey :=
  ⟨c.1.modelId, c.1.revision, poolTarget, c.2⟩

namespace Agent

variable {B : Backend}

def attempt (st : Agent B) (call : CommitCall) :
    Committing LocalTierEngine (Authority B × Nat) × Except String Unit :=
  (⟨call.session, st.store, (st.authority, 0)⟩ : Committing LocalTierEngine (Authority B × Nat)).attempt
    LocalTierEngine.asStore (Authority.asPort call.replies)

def step (st : Agent B) (call : CommitCall) : Agent B where
  store := (st.attempt call).1.store
  authority := (st.attempt call).1.cp.1
  committed := if (st.attempt call).2.isOk then
      st.committed ++ call.session.hashes.map (call.session.key, ·)
    else st.committed

def retry (st : Agent B) (call : CommitCall) : CommitCall :=
  { call with session := (st.attempt call).1.session }

/-- The control plane lists every committed block where the store has it. -/
def Agrees (node : String) (st : Agent B) : Prop :=
  ∀ c ∈ st.committed, ∃ entry, st.authority.block? (targetKey c) = some entry ∧
    (hasTierOn entry.blockMeta.locations .l2 node = true ↔ st.store.isL2Durable c.2 = true) ∧
      (entry.blockMeta.l3Present = true ↔ st.store.l3Present c.2 = true)

/-- A call that keeps the two in agreement: the session's blocks are distinct and committed under no other model,
its registration evicts nothing, and is not lost unless all blocks are new; and the flush moves no block from L2, or
the control plane answers and files every block of L2 under the session's model. -/
structure Careful (node : String) (st : Agent B) (call : CommitCall) : Prop where
  built : call.session.Built node
  distinct : call.session.hashes.Nodup
  ours : ∀ c ∈ st.committed, c.2 ∈ call.session.hashes → c.1 = call.session.key
  quota : ∀ ns evict reclaim, st.authority.namespaces.lookup call.session.key = some ns →
    st.authority.planAdmit call.session.key
        (newFlats (ns.pools.lookup poolTarget) call.session.hashes).card = .ok (.accept evict reclaim) →
      evict = 0 ∧ reclaim ≤ 0
  registered : (∀ n, call.replies .registration n = .answered) ∨ st.store.Fresh call.session.hashes
  moves : st.store.RoomFor call.session.hashes ∨
    (∀ n, call.replies .location n = .answered ∧ call.replies .l3Flag n = .answered) ∧
      (∀ h ∈ st.store.l2.keys, h ∉ call.session.hashes →
        (st.authority.filed (targetKey (call.session.key, h))).isSome = true) ∧
      ∀ c ∈ st.committed, c.2 ∈ st.store.l2.keys → c.1 = call.session.key

open Authority LocalTierEngine

section Calls

variable {s : PutEndSession} {node : String} {a b : Authority B} {e g : LocalTierEngine} {m : BlockMeta} {h : Flat}
  {replies : PortCall → Nat → Reply}

/-- What the metadata of a block say of the node is what the store has. -/
def Tells (node : String) (e : LocalTierEngine) (h : Flat) (m : BlockMeta) : Prop :=
  (hasTierOn m.locations .l2 node = true ↔ h ∈ e.l2) ∧ (m.l3Present = true ↔ h ∈ e.l3)

def Told (node : String) (a : Authority B) (e : LocalTierEngine) (c : NamespaceKey × Flat) : Prop :=
  ∃ m, a.filed (targetKey c) = some m ∧ Tells node e c.2 m

variable {c : NamespaceKey × Flat} {cp cp' : Authority B × Nat}

theorem targetKey_mem_chainKeys {key : NamespaceKey} {chain : List Flat}
    (mem : targetKey c ∈ chainKeys key chain) : c.1 = key ∧ c.2 ∈ chain := by
  obtain ⟨h, own, same⟩ := mem
  obtain ⟨model, revision, -, rfl⟩ := BlockKey.mk.inj same
  refine ⟨?_, own⟩
  cases key
  cases c
  cases model
  cases revision
  rfl

theorem Told.moves {keys : Set BlockKey} (told : Told node a e c) (refiles : Refiles a b keys)
    (out : targetKey c ∉ keys) (on2 : c.2 ∈ g.l2 ↔ c.2 ∈ e.l2) (on3 : c.2 ∈ g.l3 ↔ c.2 ∈ e.l3) : Told node b g c := by
  obtain ⟨m, filed, l2, l3⟩ := told
  exact ⟨m, refiles _ m out filed, l2.trans on2.symm, l3.trans on3.symm⟩

theorem Told.samePlaces (told : Told node a e c) (same : e.SamePlaces g) : Told node a g c := by
  refine told.moves (.refl a ∅) (Set.notMem_empty _) ?_ ?_
  · rw [same.l2]
  · rw [same.l3]

theorem admitted (built : s.Built node) {S : TierStore LocalTierEngine}
    (ok : admitRegisterBlocks (s.registerRequest S e) a = (b, .ok ())) :
    b = a ∧ s.hashes ≠ [] ∧ ∃ ns evict reclaim, a.namespaces.lookup s.key = some ns ∧
      a.planAdmit s.key (newFlats (ns.pools.lookup poolTarget) s.hashes).card = .ok (.accept evict reclaim) := by
  have ids := built.batchIds S e
  unfold admitRegisterBlocks at ok
  cases hashes : s.hashes with
  | nil =>
    rw [ids, hashes] at ok
    cases ok
  | cons h hs =>
    have names : (s.hashes.map (publicId s.key poolTarget)).map KvBlockId.blockHash = s.hashes := by
      rw [map_map]
      exact map_id _
    rw [ids, hashes] at ok
    obtain ⟨rfl, answer⟩ := Prod.mk.inj ok
    refine ⟨rfl, cons_ne_nil h hs, ?_⟩
    rw [← map_cons, ← hashes, names] at answer
    rw [← hashes]
    exact preflightRegister_accepts (statusAnswer_eq_ok.mp answer)

theorem hasTierOn_filter (node : String) (locations : List Location) (tier : Tier) :
    hasTierOn (PoolView.publishedLocations tier node 1 0 false locations) tier node = false := by
  unfold PoolView.publishedLocations
  simp only [Bool.false_and, Bool.false_eq_true, if_false]
  split
  · unfold hasTierOn
    rw [any_eq_false]
    intro l mem
    have kept := of_decide_eq_true (mem_filter.mp mem).2
    simpa using kept
  next off => exact Bool.eq_false_iff.mpr off

/-- The blocks that the flush has moved are listed on L3, and nothing else has changed. -/
structure Published (node : String) (s : PutEndSession) (a : Authority B) (moved : List Flat) (b : Authority B) :
    Prop where
  told : ∀ h ∈ moved, h ∉ s.hashes → ∃ m, b.filed (targetKey (s.key, h)) = some m ∧
    hasTierOn m.locations .l2 node = false ∧ m.l3Present = true
  others : Refiles a b { k | ∃ h ∈ moved, h ∉ s.hashes ∧ k = targetKey (s.key, h) }
  books : SameBooks a b

theorem Published.nil (a : Authority B) : Published node s a [] a where
  told _ mem := by cases mem
  others := .refl a _
  books := .refl a

theorem publishMoved_filed (built : s.Built node)
    (answered : ∀ n, replies .location n = .answered ∧ replies .l3Flag n = .answered) (foreign : h ∉ s.hashes)
    (on : a.filed (targetKey (s.key, h)) = some m) (n : Nat) :
    ∃ b m', (asPort replies).publishMoved s (a, n) h = ((b, n + 2), .ok ()) ∧
      Rewrites a s.modelId s.revision h m' b ∧ hasTierOn m'.locations .l2 node = false ∧ m'.l3Present = true := by
  change a.filed ⟨s.modelId, s.revision, poolTarget, h⟩ = some m at on
  obtain ⟨a₁, gone, first⟩ := publishLocation_filed on node
  obtain ⟨b, present, second⟩ := setL3Present_filed first.here
  refine ⟨b, _, ?_, ⟨second.here, first.elsewhere.trans second.elsewhere, first.books.trans second.books⟩,
    hasTierOn_filter node m.locations .l2, rfl⟩
  have left : (asPort replies).publishLocation s.modelId s.revision s.poolKind h .l2 s.nodeId false (a, n) =
      ((a₁, n + 1), .ok ()) := by
    refine (carried_answered (answered n).1 (fun a => plainAnswer
      (a.publishLocation s.modelId s.revision s.poolKind h .l2 s.nodeId false)) a).trans ?_
    rw [built.poolKind, built.node, gone]
    rfl
  have right : (asPort replies).setL3Present s.modelId s.revision s.poolKind h true (a₁, n + 1) =
      ((b, n + 2), .ok ()) := by
    refine (carried_answered (answered (n + 1)).2 (fun a => plainAnswer
      (a.setL3Present s.modelId s.revision s.poolKind h true)) a₁).trans ?_
    rw [built.poolKind, present]
    rfl
  rw [publishMoved_moves foreign (congrArg Prod.snd left), left]
  exact right

theorem publishes (built : s.Built node)
    (answered : ∀ n, replies .location n = .answered ∧ replies .l3Flag n = .answered) {moved : List Flat}
    (filed : ∀ h ∈ moved, h ∉ s.hashes → (a.filed (targetKey (s.key, h))).isSome = true) (n : Nat) :
    ∃ b n', runAll ((asPort replies).publishMoved s) (a, n) moved = ((b, n'), .ok ()) ∧ Published node s a moved b := by
  induction moved generalizing a n with
  | nil => exact ⟨a, n, rfl, .nil a⟩
  | cons h moved ih =>
    by_cases own : h ∈ s.hashes
    · obtain ⟨b, n', passed, published⟩ := ih (fun x mem => filed x (mem_cons_of_mem h mem)) n
      rw [runAll_cons_ok (publishMoved_own own (a, n))]
      refine ⟨b, n', passed, ?_, ?_, published.books⟩
      · intro x mem foreign
        rcases mem_cons.mp mem with rfl | mem
        · exact absurd own foreign
        · exact published.told x mem foreign
      · refine published.others.mono ?_
        rintro k ⟨x, mem, foreign, rfl⟩
        exact ⟨x, mem_cons_of_mem h mem, foreign, rfl⟩
    · obtain ⟨m, on⟩ := Option.isSome_iff_exists.mp (filed h mem_cons_self own)
      obtain ⟨a₁, m', moves, rewrites, off, present⟩ := publishMoved_filed built answered own on n
      have left : ∀ x ∈ moved, x ∉ s.hashes → (a₁.filed (targetKey (s.key, x))).isSome = true := by
        intro x mem foreign
        by_cases same : targetKey (s.key, x) = targetKey (s.key, h)
        · rw [same]
          exact Option.isSome_iff_exists.mpr ⟨m', rewrites.here⟩
        · obtain ⟨mx, onx⟩ := Option.isSome_iff_exists.mp (filed x (mem_cons_of_mem h mem) foreign)
          exact Option.isSome_iff_exists.mpr ⟨mx, rewrites.elsewhere _ mx same onx⟩
      obtain ⟨b, n', passed, published⟩ := ih left (n + 2)
      rw [runAll_cons_ok moves]
      refine ⟨b, n', passed, ?_, ?_, rewrites.books.trans published.books⟩
      · intro x mem foreign
        by_cases later : x ∈ moved
        · exact published.told x later foreign
        cases (mem_cons.mp mem).resolve_right later
        refine ⟨m', published.others _ m' ?_ rewrites.here, off, present⟩
        rintro ⟨y, mem', -, same⟩
        cases (BlockKey.mk.inj same).2.2.2
        exact later mem'
      · intro k mk out on'
        have first : a₁.filed k = some mk := by
          refine rewrites.elsewhere k mk ?_ on'
          rintro rfl
          exact out ⟨h, mem_cons_self, own, rfl⟩
        refine published.others k mk ?_ first
        rintro ⟨x, mem, foreign, rfl⟩
        exact out ⟨x, mem_cons_of_mem h mem, foreign, rfl⟩

theorem hasTierOn_fillNode (segmentId offset : Nat) :
    hasTierOn [fillNode node ⟨Tier.l2.toWire, node, segmentId, offset⟩] .l2 node = true := by
  unfold fillNode
  split <;> simp [hasTierOn]

theorem tells_registered (built : s.Built node) {block : PendingBlock} (own : block ∈ s.blocks) :
    ∃ m ∈ (s.registerRequest asStore g).blocks, m.id = some (publicId s.key poolTarget block.id.blockHash) ∧
      Tells node g block.id.blockHash (storedMeta node s.key block.id.blockHash m) := by
  refine ⟨_, mem_map.mpr ⟨block, own, rfl⟩, congrArg some (built.id_of_mem own), ?_, ?_⟩
  · dsimp only [storedMeta]
    change hasTierOn (List.map _ (if g.isL2Durable block.id.blockHash = true then _ else _)) .l2 node = true ↔ _
    by_cases on : block.id.blockHash ∈ g.l2
    · have durable : g.isL2Durable block.id.blockHash = true := decide_eq_true on
      rw [if_pos durable, built.node]
      exact iff_of_true (hasTierOn_fillNode _ _) on
    · have absent : ¬ g.isL2Durable block.id.blockHash = true := fun on' => on (of_decide_eq_true on')
      rw [if_neg absent]
      exact iff_of_false false_ne_true on
  · exact decide_eq_true_iff

theorem registers (built : s.Built node) (distinct : s.hashes.Nodup) (nonempty : s.hashes ≠ [])
    {ns : Namespace B} {reclaim : Int} (found : a.namespaces.lookup s.key = some ns) (little : reclaim ≤ 0)
    (plan : a.planAdmit s.key (newFlats (ns.pools.lookup poolTarget) s.hashes).card = .ok (.accept 0 reclaim))
    (books : SameBooks a b) (settled : ∀ h ∈ s.hashes, g.isSettled h = true) :
    ∃ c, Authority.registerBlocks (s.registerRequest asStore g) b = (c, .ok ()) ∧
      (∀ h ∈ s.hashes, Told node c g (s.key, h)) ∧ Refiles b c (chainKeys s.key s.hashes) := by
  have whole : WholeChain s.key s.hashes (s.registerRequest asStore g).blocks :=
    ⟨built.batchIds asStore g, distinct, nonempty⟩
  obtain ⟨ns', found', -⟩ := books.lookup found
  have known : newFlats (ns'.pools.lookup poolTarget) s.hashes = newFlats (ns.pools.lookup poolTarget) s.hashes := by
    have same := books.known s.key poolTarget s.hashes
    unfold pool? at same
    rw [found, found'] at same
    exact same
  have plan' : b.planAdmit s.key (newFlats (ns'.pools.lookup poolTarget) s.hashes).card = .ok (.accept 0 reclaim) := by
    rw [known, books.planAdmit]
    exact plan
  have durable : ∀ m ∈ (s.registerRequest asStore g).blocks, durableFirst m = true := by
    intro m mem
    obtain ⟨block, own, rfl⟩ := mem_map.mp mem
    have here := settled_iff.mp (settled _ (mem_map.mpr ⟨block, own, rfl⟩))
    rcases here with on | on
    · have on2 : g.isL2Durable block.id.blockHash = true := decide_eq_true on
      simp [durableFirst, asStore, on2]
    · have on3 : g.l3Present block.id.blockHash = true := decide_eq_true on
      simp [durableFirst, asStore, on3]
  obtain ⟨c, answer, filed⟩ := register_filed node found' whole little plan' durable
  refine ⟨c, ?_, ?_, filed.others⟩
  · unfold registerBlocks
    change ((b.register s.nodeId s.prefixHashes _).1, statusAnswer _ (b.register s.nodeId s.prefixHashes _).2) = _
    rw [built.node, built.chain, answer]
    rfl
  · intro h own
    obtain ⟨block, mem, rfl⟩ := mem_map.mp own
    obtain ⟨m, among, id, tells⟩ := tells_registered (g := g) built mem
    exact ⟨_, filed.own m among _ id, tells⟩

/-- What the calls after the registration keep: the session's own blocks are listed where they are. -/
structure Reported (node : String) (s : PutEndSession) (g : LocalTierEngine) (c : Authority B) (b : Authority B) :
    Prop where
  own : ∀ h ∈ s.hashes, Told node b g (s.key, h)
  others : Refiles c b (chainKeys s.key s.hashes)

theorem Reported.refiled {c d : Authority B} (reported : Reported node s g c b) (refiles : Refiles b d ∅) :
    Reported node s g c d where
  own h mem := by
    obtain ⟨m, filed, tells⟩ := reported.own h mem
    exact ⟨m, refiles _ m (Set.notMem_empty _) filed, tells⟩
  others := reported.others.trans (refiles.mono (Set.empty_subset _))

theorem Reported.rewritten {c d : Authority B} (reported : Reported node s g c b) (mem : h ∈ s.hashes)
    (rewrites : Rewrites b s.modelId s.revision h m d) (tells : Tells node g h m) : Reported node s g c d where
  own x own := by
    by_cases same : x = h
    · subst same
      exact ⟨m, rewrites.here, tells⟩
    · obtain ⟨mx, filed, told⟩ := reported.own x own
      refine ⟨mx, rewrites.elsewhere _ mx ?_ filed, told⟩
      intro eq
      exact same (BlockKey.mk.inj eq).2.2.2
  others := by
    refine reported.others.trans (rewrites.elsewhere.mono ?_)
    rintro k rfl
    exact ⟨h, mem, rfl⟩

theorem Reported.late (built : s.Built node) {c : Authority B}
    (reported : Reported node s g c cp.1) (call : (asPort replies).LateCall s asStore g cp cp') :
    Reported node s g c cp'.1 := by
  cases call with
  | @onL3 h own present =>
    obtain ⟨m, filed, on2, on3⟩ := reported.own h own
    obtain ⟨d, answer, rewrites⟩ := setL3Present_filed filed
    have now : Reported node s g c d := by
      refine reported.rewritten own rewrites ⟨on2, ?_⟩
      exact iff_of_true rfl (of_decide_eq_true present)
    refine carried_state (P := Reported node s g c) replies .l3Flag reported ?_
    change Reported node s g c (cp.1.setL3Present s.modelId s.revision s.poolKind h true).1
    rw [built.poolKind]
    exact congrArg Prod.fst answer ▸ now
  | @notOnL2 h own absent =>
    obtain ⟨m, filed, on2, on3⟩ := reported.own h own
    obtain ⟨d, answer, rewrites⟩ := publishLocation_filed filed node
    have now : Reported node s g c d := by
      refine reported.rewritten own rewrites ⟨?_, on3⟩
      have off := hasTierOn_filter node m.locations .l2
      exact iff_of_false (eq_false_iff.mp off) (of_decide_eq_false absent)
    refine carried_state (P := Reported node s g c) replies .location reported ?_
    change Reported node s g c (cp.1.publishLocation s.modelId s.revision s.poolKind h .l2 s.nodeId false).1
    rw [built.poolKind, built.node]
    exact congrArg Prod.fst answer ▸ now
  | refs ds =>
    refine carried_state (P := Reported node s g c) replies .refs reported ?_
    exact reported.refiled (reportRefs_refiles cp.1 ds)
  | barrier req =>
    refine carried_state (P := Reported node s g c) replies .barrier reported ?_
    exact reported.refiled (completeBarrier_refiles cp.1 req.requestId req.nodeId)

theorem Reported.lates (built : s.Built node) {c : Authority B}
    (reported : Reported node s g c cp.1) (calls : (asPort replies).Late s asStore g cp cp') :
    Reported node s g c cp'.1 := by
  induction calls with
  | refl => exact reported
  | tail _ call ih => exact ih.late built call

end Calls

section Attempts

variable {node : String} {st : Agent B} {call : CommitCall}

structure Kept (node : String) (st : Agent B) : Prop where
  sound : st.store.Sound
  unpinned : ∀ h, st.store.pinCount h = 0
  told : ∀ c ∈ st.committed, Told node st.authority st.store c
  settled : ∀ c ∈ st.committed, st.store.isSettled c.2 = true

theorem Kept.flushes (kept : Kept node st) (s : PutEndSession) :
    ∃ f moved, Flushes st.store s.blocks f moved ∧ asStore.flush st.store s.blocks = ((f, moved), .ok ()) := by
  rcases kept.sound.flush_cases s.blocks with done | ⟨done, b, rest, e₁, e', demoted, msg, -, first, refused, -⟩
  · exact done
  · have held := refused.held
    rw [first.pinCount, kept.unpinned] at held
    exact absurd held (lt_irrefl 0)

variable {moved : List Flat} {f : LocalTierEngine}

theorem Careful.publishes (careful : Careful node st call)
    (flushes : Flushes st.store call.session.blocks f moved) (n : Nat) :
    ∃ b n', runAll ((asPort call.replies).publishMoved call.session) (st.authority, n) moved = ((b, n'), .ok ()) ∧
      Published node call.session st.authority moved b := by
  rcases careful.moves with room | ⟨answered, filed, -⟩
  · cases flushes.demoted_nil (fun _ mem => mem) room
    exact ⟨st.authority, n, rfl, .nil _⟩
  · refine Agent.publishes careful.built answered ?_ n
    intro h mem foreign
    exact filed h (Finmap.mem_keys.mpr (flushes.demoted_mem mem foreign)) foreign

theorem Kept.foreign (kept : Kept node st) (careful : Careful node st call)
    (flushes : Flushes st.store call.session.blocks f moved) {b : Authority B}
    (published : Published node call.session st.authority moved b) {c : NamespaceKey × Flat} (mem : c ∈ st.committed)
    (out : c.2 ∉ call.session.hashes) : Told node b f c := by
  obtain ⟨on2, on3⟩ := flushes.foreign out
  by_cases went : c.2 ∈ moved
  · have before : c.2 ∈ st.store.l2 := flushes.demoted_mem went out
    have ours : c.1 = call.session.key := by
      rcases careful.moves with room | ⟨-, -, ours⟩
      · cases flushes.demoted_nil (fun _ mem => mem) room
        cases went
      · exact ours c mem (Finmap.mem_keys.mpr before)
    obtain ⟨m, filed, off, present⟩ := published.told c.2 went out
    rw [← ours] at filed
    refine ⟨m, filed, iff_of_false (eq_false_iff.mp off) ?_, iff_of_true present (on3.mpr (.inr went))⟩
    exact fun on => (on2.mp on).2 went
  · refine (kept.told c mem).moves published.others ?_ ?_ ?_
    · rintro ⟨h, moved, -, same⟩
      cases (BlockKey.mk.inj same).2.2.2
      exact went moved
    · exact on2.trans (and_iff_left went)
    · exact on3.trans (or_iff_left went)

theorem told_elsewhere {s : PutEndSession} {b d : Authority B} {f g : LocalTierEngine} {c : NamespaceKey × Flat}
    (told : Told node b f c) (out : c.2 ∉ s.hashes) (refiles : Refiles b d (chainKeys s.key s.hashes))
    (on2 : c.2 ∈ g.l2 ↔ c.2 ∈ f.l2) (on3 : c.2 ∈ g.l3 ↔ c.2 ∈ f.l3) : Told node d g c :=
  told.moves refiles (fun mem => out (targetKey_mem_chainKeys mem).2) on2 on3

section

variable (kept : Kept node st)
include kept

variable (careful : Careful node st call)
include careful

theorem Kept.reported {f g : LocalTierEngine}
    (flushes : Flushes st.store call.session.blocks f moved) {b c d : Authority B}
    (published : Published node call.session st.authority moved b)
    (registered : Refiles b c (chainKeys call.session.key call.session.hashes))
    (reported : Reported node call.session f c d) (same : f.SamePlaces g) {committed : List (NamespaceKey × Flat)}
    (grown : ∀ x ∈ committed, x ∈ st.committed ∨ x.1 = call.session.key ∧ x.2 ∈ call.session.hashes)
    (sound : g.Sound) (unpinned : ∀ h, g.pinCount h = 0) : Kept node ⟨g, d, committed⟩ := by
  have own : ∀ x ∈ committed, x.2 ∈ call.session.hashes → x.1 = call.session.key := by
    intro x mem mine
    rcases grown x mem with old | new
    · exact careful.ours x old mine
    · exact new.1
  refine ⟨sound, unpinned, ?_, ?_⟩
  · rintro ⟨key, h⟩ mem
    by_cases mine : h ∈ call.session.hashes
    · cases own _ mem mine
      exact (reported.own h mine).samePlaces same
    have old := (grown _ mem).resolve_right fun new => mine new.2
    have told := kept.foreign careful flushes published old mine
    refine told_elsewhere told mine (registered.trans reported.others) ?_ ?_
    · rw [same.l2]
    · rw [same.l3]
  · rintro ⟨key, h⟩ mem
    rw [isSettled_congr same]
    by_cases mine : h ∈ call.session.hashes
    · exact flushes.settled kept.sound mine
    · have old := (grown _ mem).resolve_right fun new => mine new.2
      exact (flushes.keeps kept.sound).2 h (kept.settled _ old)

theorem Kept.fits {f : LocalTierEngine} (flushes : Flushes st.store call.session.blocks f moved) (x : Flat)
    (mem : x ∈ call.session.hashes) : f.pinCount x + call.session.hashes.count x < 2 ^ 32 := by
  rw [flushes.pinCount, kept.unpinned, count_eq_one_of_mem careful.distinct mem]
  decide

theorem Kept.dropped {f g : LocalTierEngine} (flushes : Flushes st.store call.session.blocks f moved) {b d : Authority B}
    (published : Published node call.session st.authority moved b)
    (registered : Refiles b d (chainKeys call.session.key call.session.hashes))
    (fresh : st.store.Fresh call.session.hashes)
    (gone : Dropped (asStore.pinAll f call.session.hashes) call.session.hashes g) (sound : g.Sound) :
    Kept node ⟨g, d, st.committed⟩ := by
  have foreign : ∀ c ∈ st.committed, c.2 ∉ call.session.hashes := by
    intro c mem mine
    have off := (fresh c.2 mine).1
    rw [kept.settled c mem] at off
    cases off
  have same := samePlaces_pinAll f call.session.hashes
  have on2 : ∀ {h : Flat}, h ∉ call.session.hashes → (h ∈ g.l2 ↔ h ∈ f.l2) := by
    intro h out
    rw [← lookup_isSome, ← lookup_isSome, gone.l2, if_neg out, same.l2]
  have on3 : ∀ {h : Flat}, h ∉ call.session.hashes → (h ∈ g.l3 ↔ h ∈ f.l3) := by
    intro h out
    rw [← lookup_isSome, ← lookup_isSome, gone.l3, if_neg out, same.l3]
  refine ⟨sound, ?_, ?_, ?_⟩
  · intro h
    rw [gone.pins]
    split
    · rfl
    next out =>
      have fits := kept.fits careful flushes
      rw [pinCount_pinAll fits, flushes.pinCount, kept.unpinned, count_eq_zero.mpr out]
  · intro c mem
    have out := foreign c mem
    exact told_elsewhere (kept.foreign careful flushes published mem out) out registered (on2 out) (on3 out)
  · intro c mem
    have out := foreign c mem
    have settled := settled_iff.mp ((flushes.keeps kept.sound).2 c.2 (kept.settled c mem))
    exact settled_iff.mpr (settled.imp (on2 out).mpr (on3 out).mpr)

/-- How a careful call begins once it is admitted: its blocks are flushed, what the flush moves is published, and
the registration is accepted if it gets through. -/
theorem Kept.begins {cp₁ : Authority B × Nat}
    (admission : (asPort call.replies).admitRegisterBlocks (call.session.registerRequest asStore st.store)
      (st.authority, 0) = (cp₁, .ok ())) : ∃ f moved b n c, Flushes st.store call.session.blocks f moved ∧
      asStore.flush st.store call.session.blocks = ((f, moved), .ok ()) ∧
      runAll ((asPort call.replies).publishMoved call.session) cp₁ moved = ((b, n), .ok ()) ∧
      Published node call.session st.authority moved b ∧
      Authority.registerBlocks (call.session.registerRequest asStore (asStore.pinAll f call.session.hashes)) b =
        (c, .ok ()) ∧
      (∀ h ∈ call.session.hashes, Told node c (asStore.pinAll f call.session.hashes) (call.session.key, h)) ∧
      Refiles b c (chainKeys call.session.key call.session.hashes) := by
  obtain ⟨f, moved, flushes, flush⟩ := kept.flushes call.session
  obtain ⟨same, nonempty, ns, evict, reclaim, found, plan⟩ := admitted careful.built (carried_ok admission)
  obtain ⟨b, n, publish, published⟩ := careful.publishes flushes cp₁.2
  obtain ⟨rfl, little⟩ := careful.quota ns evict reclaim found plan
  have settled : ∀ h ∈ call.session.hashes, (asStore.pinAll f call.session.hashes).isSettled h = true := by
    intro h mem
    rw [isSettled_congr (samePlaces_pinAll f call.session.hashes)]
    exact flushes.settled kept.sound mem
  obtain ⟨c, accepted, own, others⟩ :=
    registers careful.built careful.distinct nonempty found little plan published.books settled
  have start : cp₁ = (st.authority, cp₁.2) := Prod.ext same rfl
  rw [← start] at publish
  exact ⟨f, moved, b, n, c, flushes, flush, publish, published, accepted, own, others⟩

/-- A `commit_through` keeps store and control plane in agreement, however it ends. -/
theorem Kept.step : Kept node (st.step call) := by
  have ends := Committing.attempt_ends asStore (asPort call.replies) ⟨call.session, st.store, (st.authority, 0)⟩
  change Kept node ⟨(st.attempt call).1.store, (st.attempt call).1.cp.1, if (st.attempt call).2.isOk then _ else _⟩
  change Outcome _ _ _ _ _ (st.attempt call).1.store (st.attempt call).1.cp (st.attempt call).2 at ends
  generalize (st.attempt call).1.store = store at ends ⊢
  generalize (st.attempt call).1.cp = cp at ends ⊢
  generalize (st.attempt call).2 = result at ends ⊢
  -- an attempt that gets through its registration ends with the pins taken back
  have through : ∀ {f : LocalTierEngine} {moved : List Flat} {b c d : Authority B} {committed},
      Flushes st.store call.session.blocks f moved → Published node call.session st.authority moved b →
      Refiles b c (chainKeys call.session.key call.session.hashes) →
      Reported node call.session (asStore.pinAll f call.session.hashes) c d →
      (∀ x ∈ committed, x ∈ st.committed ∨ x.1 = call.session.key ∧ x.2 ∈ call.session.hashes) →
      Kept node ⟨asStore.releaseAll (asStore.pinAll f call.session.hashes) call.session.hashes, d, committed⟩ := by
    intro f moved b c d committed flushes published others reported grown
    have pinned := samePlaces_pinAll f call.session.hashes
    have own : Reported node call.session f c d := by
      refine ⟨?_, reported.others⟩
      intro h mem
      exact (reported.own h mem).samePlaces ⟨pinned.l2.symm, pinned.l3.symm⟩
    have sound := (flushes.keeps kept.sound).1.pinAll call.session.hashes
    refine kept.reported careful flushes published others own ?_ grown (sound.releaseAll _) ?_
    · exact pinned.trans (samePlaces_releaseAll (asStore.pinAll f call.session.hashes) call.session.hashes)
    · intro h
      rw [pinCount_released (kept.fits careful flushes), flushes.pinCount, kept.unpinned]
  cases ends with
  | unadmitted admission =>
    have idle : (carried call.replies .admission
        (admitRegisterBlocks (call.session.registerRequest asStore st.store)) (st.authority, 0)).1.1 = st.authority := by
      refine carried_state (P := (· = st.authority)) call.replies .admission rfl ?_
      exact admitRegisterBlocks_state _ st.authority
    have state : cp.1 = st.authority := by
      rw [← idle]
      exact (congrArg (fun r => r.1.1) admission).symm
    rw [state]
    exact kept
  | unflushed admission failed =>
    obtain ⟨f, moved, b, n, c, flushes, flush, -⟩ := kept.begins careful admission
    rw [flush] at failed
    cases failed
  | unpublished admission passed failed =>
    obtain ⟨f, moved, b, n, c, flushes, flush, publish, -⟩ := kept.begins careful admission
    cases flush.symm.trans passed
    cases publish.symm.trans failed
  | unregistered admission passed published failed =>
    obtain ⟨f, moved, b, n, c, flushes, flush, publish, list, accepted, own, others⟩ := kept.begins careful admission
    cases flush.symm.trans passed
    cases publish.symm.trans published
    rcases careful.registered with answered | fresh
    · have passed := carried_answered (answered n) (registerBlocks
        (call.session.registerRequest asStore (asStore.pinAll f call.session.hashes))) b
      rw [accepted] at passed
      cases passed.symm.trans failed
    · have refiles : Refiles b cp.1 (chainKeys call.session.key call.session.hashes) := by
        have state : Refiles b (carried call.replies .registration (registerBlocks
            (call.session.registerRequest asStore (asStore.pinAll f call.session.hashes))) (b, n)).1.1
            (chainKeys call.session.key call.session.hashes) := by
          refine carried_state (P := fun d => Refiles b d (chainKeys call.session.key call.session.hashes))
            call.replies .registration (.refl b _) ?_
          rw [accepted]
          exact others
        have reached := congrArg (fun r => r.1.1) failed
        exact reached ▸ state
      have sound := (flushes.keeps kept.sound).1.pinAll call.session.hashes
      exact kept.dropped careful flushes list refiles fresh (dropped_dropAll _ _) (sound.dropAll _)
  | undone admission passed published registered late =>
    obtain ⟨f, moved, b, n, c, flushes, flush, publish, list, accepted, own, others⟩ := kept.begins careful admission
    cases flush.symm.trans passed
    cases publish.symm.trans published
    cases accepted.symm.trans (carried_ok registered)
    have reported := Reported.lates careful.built ⟨own, .refl _ _⟩ late
    exact through flushes list others reported fun _ => .inl
  | finished admission passed published registered late =>
    obtain ⟨f, moved, b, n, c, flushes, flush, publish, list, accepted, own, others⟩ := kept.begins careful admission
    cases flush.symm.trans passed
    cases publish.symm.trans published
    cases accepted.symm.trans (carried_ok registered)
    have reported := Reported.lates careful.built ⟨own, .refl _ _⟩ late
    have enough : ∀ x ∈ call.session.hashes, call.session.hashes.count x ≤
        (asStore.pinAll f call.session.hashes).pinCount x := by
      intro x mem
      rw [pinCount_pinAll (kept.fits careful flushes)]
      omega
    rw [unpinEach_eq enough]
    refine through flushes list others reported ?_
    intro x mem
    rcases mem_append.mp mem with old | new
    · exact .inl old
    · obtain ⟨h, own, rfl⟩ := mem_map.mp new
      exact .inr ⟨rfl, own⟩

end

/-- In every run of careful calls, from any store without pins, the control plane lists every block of a committed
session where the store has it. -/
theorem putend_agreement (run : Reach step (fun st : Agent B => st.store.Sound ∧ (∀ h, st.store.pinCount h = 0) ∧
    st.committed = []) (Careful node) st) : st.Agrees node := by
  have kept : Kept node st := by
    refine Reach.invariant (I := Kept node) ?_ (fun _ _ kept careful => kept.step careful) run
    rintro st ⟨sound, unpinned, none⟩
    refine ⟨sound, unpinned, ?_, ?_⟩
    · intro c mem
      rw [none] at mem
      cases mem
    · intro c mem
      rw [none] at mem
      cases mem
  intro c mem
  obtain ⟨m, filed, on2, on3⟩ := kept.told c mem
  obtain ⟨p, entry, found, here, -, rfl⟩ := filed_eq_some.mp filed
  refine ⟨entry, block?_eq_some.mpr ⟨p, found, here⟩, on2.trans ?_, on3.trans ?_⟩
  · exact decide_eq_true_iff.symm
  · exact decide_eq_true_iff.symm

end Attempts

def twoModels : Agent sampleBackend where
  store := withCaps { l2 := 1 }
  authority := sampleRun [.registerModel (sampleModel 0 0), .registerModel { sampleModel 0 0 with modelId := "m2" }]
  committed := []

def putOne (modelId : String) (n : UInt8) : CommitCall where
  session := .opened "q" "n" modelId "r" [([n], [n])]
  replies _ _ := .answered

theorem putOne_careful {st : Agent sampleBackend} {n : UInt8} (ours : ∀ c ∈ st.committed, c.1 = sampleKey)
    (quota : (st.authority.namespaces.lookup sampleKey).map (fun ns => st.authority.planAdmit sampleKey
      (newFlats (ns.pools.lookup poolTarget) [[n]]).card) = some (.ok (.accept 0 0)))
    (filed : ∀ h ∈ st.store.l2.keys, h ∉ [[n]] → (st.authority.filed (targetKey (sampleKey, h))).isSome = true) :
    Careful "n" st (putOne "m" n) where
  built := opened_built "q" "m" "r" [([n], [n])]
  distinct := nodup_singleton [n]
  ours c mem _ := ours c mem
  quota ns evict reclaim found plan := by
    change st.authority.namespaces.lookup sampleKey = some ns at found
    rw [found] at quota
    cases plan.symm.trans (Option.some.inj quota)
    exact ⟨rfl, le_refl 0⟩
  registered := .inl fun _ => rfl
  moves := .inr ⟨fun _ => ⟨rfl, rfl⟩, filed, fun c mem _ => ours c mem⟩

/-- A block that a session of the same model has driven out of L2 is listed on L3. -/
theorem putend_agreement_driven_out : ((twoModels.step (putOne "m" 1)).step (putOne "m" 2)).Agrees "n" := by
  have start : twoModels.store.Empty := ⟨_, defaultSlotBytes, 64, 2, rfl⟩
  have first : Careful "n" twoModels (putOne "m" 1) :=
    putOne_careful (by decide +kernel) (by decide +kernel) (by decide +kernel)
  have second : Careful "n" (twoModels.step (putOne "m" 1)) (putOne "m" 2) :=
    putOne_careful (by decide +kernel) (by decide +kernel) (by decide +kernel)
  exact putend_agreement (.next (.next (.start ⟨start.sound, fun _ => rfl, rfl⟩) first) second)

/-- A session of another model drives the block out. Its first attempt fails, as the block is not filed under its
model; the next one succeeds, and the block is listed on L2 still. -/
theorem moved_block_not_told :
    ((twoModels.step (putOne "m" 1)).attempt (putOne "m2" 2)).2 = .error "publish_location: unknown pool_kind 1" ∧
      (((twoModels.step (putOne "m" 1)).step (putOne "m2" 2)).attempt
        ((twoModels.step (putOne "m" 1)).retry (putOne "m2" 2))).2 = .ok () ∧
      ¬ (((twoModels.step (putOne "m" 1)).step (putOne "m2" 2)).step
        ((twoModels.step (putOne "m" 1)).retry (putOne "m2" 2))).Agrees "n" := by
  refine ⟨by decide +kernel, by decide +kernel, ?_⟩
  generalize last : ((twoModels.step (putOne "m" 1)).step (putOne "m2" 2)).step
    ((twoModels.step (putOne "m" 1)).retry (putOne "m2" 2)) = st
  have listed : (st.authority.block? (targetKey (sampleKey, [1]))).map
      (fun entry => hasTierOn entry.blockMeta.locations .l2 "n") = some true := by
    rw [← last]
    decide +kernel
  have moved : st.store.isL2Durable [1] = false := by
    rw [← last]
    decide +kernel
  have mem : (sampleKey, [1]) ∈ st.committed := by
    rw [← last]
    decide +kernel
  intro agrees
  obtain ⟨entry, found, on2, -⟩ := agrees _ mem
  rw [found] at listed
  have on := on2.mp (Option.some.inj listed)
  rw [moved] at on
  cases on

end Agent

end LakeKv
