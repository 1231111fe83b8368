import LakeKv.AuthorityPort
import LakeKv.AutoscaleBounds
import LakeKv.ShardMigrations

namespace LakeKv

open Finmap Finset Function List

/-- What becomes of a call: the control plane answers it, refuses it, never sees it, or takes it and its answer is
lost. -/
inductive Delivery
  | answered
  | refused (err : String)
  | failed (err : String)
  | lost (err : String)

/-- The circumstances of a call: what the authority holds besides the ring at that moment, and what becomes of it. -/
structure Circumstance (B : Backend) where
  others : Authority B
  delivery : Delivery

/-- The control plane as the router's calls meet it: the ring, the circumstances of every call, how many were made,
and the nodes of which a call took effect without an answer. -/
structure Cluster (B : Backend) where
  ring : ShardRing
  calls : Nat → Circumstance B
  made : Nat
  lost : List String

namespace Cluster

variable {B : Backend}

def carryOut (c : Cluster B) (f : Authority B → Except Fault (Authority B)) : Except Fault (Cluster B) :=
  (f { (c.calls c.made).others with shard := c.ring }).map fun a => { c with ring := a.shard, made := c.made + 1 }

def call (c : Cluster B) (node : String) (f : Authority B → Except Fault (Authority B)) : Cluster B × CallReply :=
  let idle := { c with made := c.made + 1 }
  match (c.calls c.made).delivery with
  | .refused err => (idle, .rejected err)
  | .failed err => (idle, .failed err)
  | .answered =>
    match c.carryOut f with
    | .ok c' => (c', .ok)
    | .error (.err err) => (idle, .rejected err)
    | .error (.panicked err) => (idle, .failed err)
  | .lost err =>
    match c.carryOut f with
    | .ok c' => ({ c' with lost := c.lost ++ [node] }, .failed err)
    | .error _ => (idle, .failed err)

/-- The calls of the router. It asks for the default number of vnodes. -/
def shardCalls (H : ShardHash) : ShardCalls (Cluster B) where
  joinShardNode c id := c.call id fun a => (H.joinShardNode a id 0).map (·.1)
  drainShardNode c id := c.call id fun a => (H.drainShardNode a id).map (·.1)
  removeShardNode c id := c.call id fun a => H.removeShardNode a id

end Cluster

theorem exists_of_map_ok {ε α β : Type} {x : Except ε α} {f : α → β} {b : β} (h : x.map f = .ok b) :
    ∃ a, x = .ok a ∧ f a = b := by
  cases x with
  | error e => cases h
  | ok a => exact ⟨a, rfl, Except.ok.inj h⟩

section Statuses

def ShardRing.status (r : ShardRing) (n : String) : Option Bool :=
  (r.nodes.lookup n).map NodeState.draining

def NodeRegistry.status (r : NodeRegistry) (n : String) : Option Bool :=
  if r.ready.contains n then some false else if n ∈ r.draining then some true else none

def advance : Option Bool → Option Bool
  | none => some false
  | some false => some true
  | some true => none

theorem advance_ne (status : Option Bool) : advance status ≠ status := by
  rcases status with _ | _ | _ <;> decide

def Advances {B : Backend} (f : Authority B → Except Fault (Authority B)) (n : String) (status : Option Bool) : Prop :=
  ∀ a a', f a = .ok a' → a.shard.status n = status ∧
    a'.shard.status = Function.update a.shard.status n (advance status)

variable {B : Backend} {H : ShardHash} {r r' : ShardRing} {n : String}

theorem advances_join (H : ShardHash) (n : String) :
    Advances (B := B) (fun a => (H.joinShardNode a n 0).map (·.1)) n none := by
  intro a a' h
  obtain ⟨⟨a'', map, migrations⟩, joined, rfl⟩ := exists_of_map_ok h
  obtain ⟨r', ok, rfl, _⟩ := ShardHash.joinShardNode_eq_ok joined
  obtain ⟨absent, hashes, _, rfl⟩ := ShardHash.join_eq_ok ok
  refine ⟨congrArg (Option.map NodeState.draining) absent, funext fun m => ?_⟩
  change ((a.shard.nodes.insert n _).lookup m).map NodeState.draining = _
  rw [lookup_insert_if, update_apply]
  split <;> rfl

theorem advances_drain (H : ShardHash) (n : String) :
    Advances (B := B) (fun a => (H.drainShardNode a n).map (·.1)) n (some false) := by
  intro a a' h
  obtain ⟨⟨a'', map, migrations, push⟩, drained, rfl⟩ := exists_of_map_ok h
  obtain ⟨r', ok, rfl, _⟩ := ShardHash.drainShardNode_eq_ok drained
  obtain ⟨st, here, ready, rfl⟩ := ShardHash.markDrain_eq_ok ok
  refine ⟨?_, funext fun m => ?_⟩
  · unfold ShardRing.status
    rw [here, ← ready]
    rfl
  · change ((a.shard.nodes.insert n _).lookup m).map NodeState.draining = _
    rw [lookup_insert_if, update_apply]
    split <;> rfl

theorem advances_remove (H : ShardHash) (n : String) :
    Advances (B := B) (fun a => H.removeShardNode a n) n (some true) := by
  intro a a' h
  dsimp only at h
  unfold ShardHash.removeShardNode at h
  split at h
  · cases h
  split at h
  · cases h
  obtain ⟨r', removed, h⟩ := bind_eq_ok h
  cases h
  obtain ⟨st, here, draining, rfl⟩ := ShardHash.remove_eq_ok removed
  refine ⟨?_, funext fun m => ?_⟩
  · unfold ShardRing.status
    rw [here, ← draining]
    rfl
  · change ((a.shard.nodes.erase n).lookup m).map NodeState.draining = _
    rw [lookup_erase_if, update_apply]
    split <;> rfl

end Statuses

namespace Cluster

variable {B : Backend} {f : Authority B → Except Fault (Authority B)} {n : String} {status : Option Bool}

theorem carryOut_ok {c c' : Cluster B} (adv : Advances f n status) (ok : c.carryOut f = .ok c') :
    c.ring.status n = status ∧ c'.ring.status = update c.ring.status n (advance status) ∧ c'.lost = c.lost := by
  obtain ⟨a, done, rfl⟩ := exists_of_map_ok ok
  obtain ⟨before, after⟩ := adv _ _ done
  exact ⟨before, after, rfl⟩

theorem call_cases (c : Cluster B) (adv : Advances f n status) : ((c.call n f).2 = .ok ∧ c.ring.status n = status ∧
      (c.call n f).1.ring.status = update c.ring.status n (advance status) ∧ (c.call n f).1.lost = c.lost) ∨
    ((c.call n f).2 ≠ .ok ∧ (c.call n f).1.ring.status = c.ring.status ∧ (c.call n f).1.lost = c.lost) ∨
    ((c.call n f).2 ≠ .ok ∧ c.ring.status n = status ∧
      (c.call n f).1.ring.status = update c.ring.status n (advance status) ∧
      (c.call n f).1.lost = c.lost ++ [n]) := by
  unfold call
  dsimp only
  split
  · exact .inr (.inl ⟨by simp, rfl, rfl⟩)
  · exact .inr (.inl ⟨by simp, rfl, rfl⟩)
  · split
    next c' ok => exact .inl ⟨rfl, carryOut_ok adv ok⟩
    · exact .inr (.inl ⟨by simp, rfl, rfl⟩)
    · exact .inr (.inl ⟨by simp, rfl, rfl⟩)
  split
  next c' ok =>
    obtain ⟨before, after, _⟩ := carryOut_ok adv ok
    exact .inr (.inr ⟨by simp, before, after, rfl⟩)
  · exact .inr (.inl ⟨by simp, rfl, rfl⟩)

end Cluster

/-- The two tables of nodes, and the nodes of which a call took effect without an answer. -/
@[ext]
structure Books where
  registry : String → Option Bool
  ring : String → Option Bool
  lost : List String

/-- What a call does to the tables: nothing, the same on both sides, or the ring alone. -/
inductive Move (b : Books) : Books → Prop
  | idle : Move b b
  | both {n : String} (same : b.ring n = b.registry n) : Move b
      ⟨Function.update b.registry n (advance (b.registry n)), Function.update b.ring n (advance (b.ring n)), b.lost⟩
  | astray {n : String} (worker : n ≠ "worker-0") (same : b.ring n = b.registry n) :
      Move b ⟨b.registry, Function.update b.ring n (advance (b.ring n)), b.lost ++ [n]⟩

namespace Books

variable {b b' : Books} {n : String}

/-- The tables differ in the nodes of which an answer was lost, and the ring is a step ahead there. -/
structure Kept (b : Books) : Prop where
  same : ∀ n, n ≠ "worker-0" → n ∉ b.lost → b.ring n = b.registry n
  ahead : ∀ n ∈ b.lost, b.ring n = advance (b.registry n)
  workers : "worker-0" ∉ b.lost
  once : b.lost.Nodup

variable (kept : b.Kept)
include kept

theorem Kept.not_lost (same : b.ring n = b.registry n) : n ∉ b.lost := by
  intro mem
  exact advance_ne _ ((kept.ahead n mem).symm.trans same)

theorem Kept.move (move : Move b b') : b'.Kept ∧ b.lost <+: b'.lost := by
  cases move with
  | idle => exact ⟨kept, prefix_refl _⟩
  | @both n same =>
    have clean := kept.not_lost same
    refine ⟨⟨?_, ?_, kept.workers, kept.once⟩, prefix_refl _⟩
    · intro m worker mem
      dsimp only
      rw [update_apply, update_apply]
      split
      · rw [same]
      · exact kept.same m worker mem
    · intro m mem
      have ne : m ≠ n := fun eq => clean (eq ▸ mem)
      dsimp only
      rw [update_of_ne ne, update_of_ne ne]
      exact kept.ahead m mem
  | @astray n worker same =>
    have clean := kept.not_lost same
    refine ⟨⟨?_, ?_, ?_, ?_⟩, prefix_append _ _⟩
    · intro m worker mem
      have apart := not_or.mp (fun here => mem (mem_append.mpr here))
      have ne : m ≠ n := fun eq => apart.2 (eq ▸ mem_cons_self)
      dsimp only
      rw [update_of_ne ne]
      exact kept.same m worker apart.1
    · intro m mem
      dsimp only
      rcases mem_append.mp mem with old | new
      · have ne : m ≠ n := fun eq => clean (eq ▸ old)
        rw [update_of_ne ne]
        exact kept.ahead m old
      · rw [List.mem_singleton.mp new, update_self, same]
    · intro mem
      rcases mem_append.mp mem with old | new
      · exact kept.workers old
      · exact worker (List.mem_singleton.mp new).symm
    · change (b.lost ++ [n]).Nodup
      rw [← concat_eq_append]
      exact kept.once.concat clean

theorem Kept.moves (moves : Relation.ReflTransGen Move b b') : b'.Kept ∧ b.lost <+: b'.lost := by
  induction moves with
  | refl => exact ⟨kept, prefix_refl _⟩
  | tail _ move ih =>
    obtain ⟨kept', grown⟩ := ih.1.move move
    exact ⟨kept', ih.2.trans grown⟩

end Books

namespace Server

variable {B : Backend} {H : ShardHash} {x y : Server × Cluster B} {top : Int64} {cfg : AutoscaleConfig}

def books (x : Server × Cluster B) : Books :=
  ⟨x.1.nodes.status, x.2.ring.status, x.2.lost⟩

section Registry

variable {r : NodeRegistry} {n m : String}

theorem status_ready (mem : n ∈ r.ready) : r.status n = some false :=
  if_pos (contains_iff_mem.mpr mem)

theorem status_draining (absent : n ∉ r.ready) (mem : n ∈ r.draining) : r.status n = some true := by
  unfold NodeRegistry.status
  rw [if_neg fun here => absent (contains_iff_mem.mp here), if_pos mem]

theorem status_absent (absent : n ∉ r.ready) (gone : n ∉ r.draining) : r.status n = none := by
  unfold NodeRegistry.status
  rw [if_neg fun here => absent (contains_iff_mem.mp here), if_neg gone]

theorem status_update {r' : NodeRegistry} {status : Option Bool} (here : r'.status n = status)
    (ready : ∀ m, m ≠ n → (m ∈ r'.ready ↔ m ∈ r.ready)) (draining : ∀ m, m ≠ n → (m ∈ r'.draining ↔ m ∈ r.draining)) :
    r'.status = update r.status n status := by
  funext m
  rw [update_apply]
  split
  next same => rw [same, here]
  next ne =>
    unfold NodeRegistry.status
    simp only [contains_iff_mem, ready m ne, draining m ne]

end Registry

theorem Steady.ne_worker0 {s : Server} {n : String} (steady : s.Steady cfg) (mem : n ∈ s.nodes.draining) : n ≠ "worker-0" := by
  rintro rfl
  exact steady.apart "worker-0" (mem_of_mem_head? steady.first) mem

/-- What the three kinds of calls have in common: the registry follows an answer and ignores the lack of one. -/
theorem move_of_call {f : Authority B → Except Fault (Authority B)} {n : String} {status : Option Bool}
    (adv : Advances f n status) (worker : n ≠ "worker-0") (here : x.1.nodes.status n = status)
    (cluster : y.2 = (x.2.call n f).1)
    (follows : (x.2.call n f).2 = .ok → y.1.nodes.status = update x.1.nodes.status n (advance status))
    (ignores : (x.2.call n f).2 ≠ .ok → y.1.nodes.status = x.1.nodes.status) : Move (books x) (books y) := by
  rcases x.2.call_cases adv with ⟨ok, before, ring, lost⟩ | ⟨not, ring, lost⟩ | ⟨not, before, ring, lost⟩
  · have same : (books x).ring n = (books x).registry n := before.trans here.symm
    have after : books y = ⟨update (books x).registry n (advance ((books x).registry n)),
        update (books x).ring n (advance ((books x).ring n)), (books x).lost⟩ := by
      refine Books.ext ?_ ?_ ?_
      · rw [show (books x).registry n = status from here]
        exact follows ok
      · rw [show (books x).ring n = status from before]
        exact (congrArg (fun c => c.ring.status) cluster).trans ring
      · exact (congrArg Cluster.lost cluster).trans lost
    rw [after]
    exact .both same
  · have after : books y = books x := by
      refine Books.ext (ignores not) ?_ ?_
      · exact (congrArg (fun c => c.ring.status) cluster).trans ring
      · exact (congrArg Cluster.lost cluster).trans lost
    rw [after]
    exact .idle
  · have same : (books x).ring n = (books x).registry n := before.trans here.symm
    have after : books y = ⟨(books x).registry, update (books x).ring n (advance ((books x).ring n)),
        (books x).lost ++ [n]⟩ := by
      refine Books.ext (ignores not) ?_ ?_
      · rw [show (books x).ring n = status from before]
        exact (congrArg (fun c => c.ring.status) cluster).trans ring
      · exact (congrArg Cluster.lost cluster).trans lost
    rw [after]
    exact .astray worker same

section

variable (steady : x.1.Steady cfg)
include steady

theorem reap_move {id : String} (mem : id ∈ x.1.nodes.draining) :
    Move (books x) (books (reap (Cluster.shardCalls H) x id)) := by
  have absent : id ∉ x.1.nodes.ready := fun ready => steady.apart id ready mem
  have here := status_draining absent mem
  rcases reap_cases (Cluster.shardCalls H) x id with ⟨ok, eq⟩ | ⟨not, eq⟩ <;> rw [eq]
  · refine move_of_call (advances_remove H id) (steady.ne_worker0 mem) here rfl ?_ (fun not => absurd ok not)
    intro _
    refine status_update (status_absent absent (notMem_erase id _)) (fun _ _ => Iff.rfl) ?_
    intro m ne
    exact ⟨mem_of_mem_erase, fun here => mem_erase.mpr ⟨ne, here⟩⟩
  · exact move_of_call (advances_remove H id) (steady.ne_worker0 mem) here rfl (fun ok => absurd ok not) fun _ => rfl

theorem scaleOut_move (lasts : x.1.nodes.seq ≠ -1) : Move (books x) (books (scaleOut (Cluster.shardCalls H) x).1) := by
  obtain ⟨_, _, _, worker⟩ := steady.fresh lasts
  obtain ⟨notReady, notDraining⟩ := steady.absent lasts
  have here := status_absent notReady notDraining
  rcases scaleOut_cases (Cluster.shardCalls H) x with ⟨ok, eq⟩ | ⟨not, eq⟩ <;> rw [eq]
  · refine move_of_call (advances_join H _) worker here rfl ?_ (fun not => absurd ok not)
    intro _
    refine status_update (status_ready (mem_append_right _ mem_cons_self)) ?_ ?_
    · intro m ne
      constructor
      · intro mem
        exact (mem_append.mp mem).resolve_right fun new => ne (List.mem_singleton.mp new)
      · exact mem_append_left _
    · intro m ne
      exact ⟨mem_of_mem_erase, fun here => mem_erase.mpr ⟨ne, here⟩⟩
  · exact move_of_call (advances_join H _) worker here rfl (fun ok => absurd ok not) fun _ => rfl

theorem drain_move {victim : String} {nodes : NodeRegistry}
    (last : x.1.nodes.lastReady = some victim) (marked : x.1.nodes.markDraining victim = some nodes)
    (spare : x.1.scaler.cfg.minNodes < x.1.nodes.count) :
    Move (books x) (books (drain (Cluster.shardCalls H) ({ x.1 with nodes := nodes }, x.2) victim).1) := by
  obtain ⟨front, split, fresh, rest, first⟩ := steady.victim last spare
  have here := status_ready (split ▸ mem_append_right front mem_cons_self : victim ∈ x.1.nodes.ready)
  have worker : victim ≠ "worker-0" := by
    rintro rfl
    exact fresh (mem_of_mem_head? first)
  rcases drain_cases (Cluster.shardCalls H) ({ x.1 with nodes := nodes }, x.2) victim with ⟨ok, eq⟩ | ⟨not, eq⟩ <;>
    rw [eq]
  · refine move_of_call (advances_drain H victim) worker here rfl ?_ (fun not => absurd ok not)
    intro _
    change nodes.status = _
    rw [markDraining_eq marked, rest]
    refine status_update (status_draining fresh (mem_insert_self victim _)) ?_ ?_
    · intro m ne
      change m ∈ front ↔ m ∈ x.1.nodes.ready
      rw [← rest]
      exact mem_erase_of_ne ne
    · intro m ne
      exact mem_insert.trans (or_iff_right ne)
  · refine move_of_call (advances_drain H victim) worker here rfl (fun ok => absurd ok not) ?_
    intro _
    change (nodes.unmarkDraining victim).status = _
    rw [unmark_mark steady.nodup steady.apart last marked]

theorem act_move (lasts : top ≠ -1) (act : Act (Cluster.shardCalls H) top x y) : Move (books x) (books y) := by
  cases act with
  | reaps mem => exact reap_move steady mem
  | waits | decides => exact .idle
  | joins here room => exact scaleOut_move steady (here ▸ lasts)
  | drains last marked spare => exact drain_move steady last marked spare

theorem tick_moves (lasts : x.1.nodes.seq ≠ -1) (order : RangeOrder) (now : Int) (m : MetricsSnapshot) :
    Relation.ReflTransGen Move (books x) (books (autoscaleTick (Cluster.shardCalls H) order now m x)) := by
  have acts := tick_acts (P := Cluster.shardCalls H) order now m x
  generalize autoscaleTick (Cluster.shardCalls H) order now m x = y at acts
  have both : y.1.Steady cfg ∧ Relation.ReflTransGen Move (books x) (books y) := by
    induction acts with
    | refl => exact ⟨steady, .refl⟩
    | tail _ act ih => exact ⟨ih.1.act lasts act, ih.2.tail (act_move ih.1 lasts act)⟩
  exact both.2

end

def Started (autoscale : Bool) (maxInFlight : Int64) (cfg : AutoscaleConfig) (x : Server × Cluster B) : Prop :=
  x.1 = new autoscale maxInFlight cfg ∧ x.2.lost = [] ∧ ∀ n, n ≠ "worker-0" → n ∉ x.2.ring.nodes

/-- A node is ready in the registry exactly when it is a member of the ring that is not draining, and draining there
exactly when it is draining here. -/
def Agrees (x : Server × Cluster B) (n : String) : Prop :=
  (n ∈ x.1.nodes.ready ↔ x.2.ring.status n = some false) ∧ (n ∈ x.1.nodes.draining ↔ x.2.ring.status n = some true)

theorem agrees_iff (steady : x.1.Steady cfg) (n : String) : Agrees x n ↔ (books x).ring n = (books x).registry n := by
  change Agrees x n ↔ x.2.ring.status n = x.1.nodes.status n
  unfold Agrees
  by_cases ready : n ∈ x.1.nodes.ready
  · have gone := steady.apart n ready
    rw [status_ready ready]
    simp only [ready, gone, true_iff, false_iff]
    constructor
    · exact And.left
    · intro same
      rw [same]
      exact ⟨rfl, by decide⟩
  · by_cases draining : n ∈ x.1.nodes.draining
    · rw [status_draining ready draining]
      simp only [ready, draining, true_iff, false_iff]
      constructor
      · exact And.right
      · intro same
        rw [same]
        exact ⟨by decide, rfl⟩
    · rw [status_absent ready draining]
      simp only [ready, draining, false_iff]
      rcases x.2.ring.status n with _ | _ | _ <;> decide

variable {maxInFlight : Int64} {autoscale : Bool}

theorem kept_started (started : Started autoscale maxInFlight cfg x) : (books x).Kept := by
  obtain ⟨server, lost, ring⟩ := started
  have clean : (books x).lost = [] := lost
  refine ⟨?_, ?_, ?_, ?_⟩
  · intro n worker _
    have member : x.2.ring.status n = none :=
      congrArg (Option.map NodeState.draining) (lookup_eq_none.mpr (ring n worker))
    have here : x.1.nodes.status n = none := by
      rw [server]
      exact status_absent (fun mem => worker (List.mem_singleton.mp mem)) (notMem_empty n)
    exact member.trans here.symm
  · intro n mem
    rw [clean] at mem
    exact absurd mem not_mem_nil
  · rw [clean]
    exact not_mem_nil
  · rw [clean]
    exact nodup_nil

theorem books_schedule (P : ShardCalls (Cluster B)) (x : Server × Cluster B) (op : PqOp) :
    books (step P x (.schedule op)) = books x := by
  unfold Server.step
  split
  next same => cases same
  · rfl
  · rfl

theorem kept_reach
    (run : Reach (step (Cluster.shardCalls H)) (Started autoscale maxInFlight cfg) (fun x _ => x.1.nodes.seq ≠ -1) x) :
    x.1.Steady cfg ∧ (books x).Kept := by
  refine run.invariant (I := fun x => x.1.Steady cfg ∧ (books x).Kept) ?_ ?_
  · intro x started
    refine ⟨?_, kept_started started⟩
    rw [started.1]
    exact steady_new autoscale maxInFlight cfg
  · rintro x op ⟨steady, kept⟩ lasts
    refine ⟨steady.step op lasts, ?_⟩
    cases op with
    | tick order now m => exact (kept.moves (tick_moves steady lasts order now m)).1
    | schedule op =>
      rw [books_schedule]
      exact kept

/-- After every tick of every run, all nodes agree but the first and those of which an answer was lost in that tick,
if and only if no answer to a call that took effect was lost in an earlier one. -/
theorem nodes_agree_iff {autoscale : Bool} {maxInFlight : Int64}
    (run : Reach (step (Cluster.shardCalls H)) (Started autoscale maxInFlight cfg) (fun x _ => x.1.nodes.seq ≠ -1) x)
    (lasts : x.1.nodes.seq ≠ -1) (order : RangeOrder) (now : Int) (m : MetricsSnapshot)
    (after : y = autoscaleTick (Cluster.shardCalls H) order now m x) :
    (∀ n, n ≠ "worker-0" → n ∉ y.2.lost.drop x.2.lost.length → Agrees y n) ↔ x.2.lost = [] := by
  obtain ⟨steady, kept⟩ := kept_reach run
  have steady' : y.1.Steady cfg := by
    rw [after]
    exact steady.step (.tick order now m) lasts
  have moves := tick_moves (H := H) steady lasts order now m
  rw [← after] at moves
  obtain ⟨kept', grown⟩ := kept.moves moves
  obtain ⟨recent, lost⟩ := grown
  change x.2.lost ++ recent = y.2.lost at lost
  have now_lost : y.2.lost.drop x.2.lost.length = recent := by
    rw [← lost, drop_left]
  rw [now_lost]
  constructor
  · intro agree
    by_contra some_lost
    obtain ⟨n, mem⟩ := exists_mem_of_ne_nil _ some_lost
    have still : n ∈ (books y).lost := by
      change n ∈ y.2.lost
      rw [← lost]
      exact mem_append_left _ mem
    have worker : n ≠ "worker-0" := by
      rintro rfl
      exact kept.workers mem
    have once : n ∉ recent := by
      intro again
      have nodup := kept'.once
      change y.2.lost.Nodup at nodup
      rw [← lost] at nodup
      exact (nodup_append.mp nodup).2.2 n mem n again rfl
    have same := (agrees_iff steady' n).mp (agree n worker once)
    exact kept'.not_lost same still
  · intro none n worker fresh
    refine (agrees_iff steady' n).mpr (kept'.same n worker ?_)
    change n ∉ y.2.lost
    rw [← lost, none, nil_append]
    exact fresh

def sampleCluster (deliveries : List Delivery) : Cluster sampleBackend :=
  ⟨.new 1, fun i => ⟨sampleRun [], deliveries.getD i .answered⟩, 0, []⟩

theorem started_sample (deliveries : List Delivery) :
    Started true 3 sampleConfig (new true 3 sampleConfig, sampleCluster deliveries) :=
  ⟨rfl, rfl, fun _ _ => notMem_empty⟩

def sampleJoin (deliveries : List Delivery) : Server × Cluster sampleBackend :=
  autoscaleTick (Cluster.shardCalls ShardHash.sampleShardHash) sampleOrder 100 ⟨9, 2⟩
    (new true 3 sampleConfig, sampleCluster deliveries)

def sampleIdle (deliveries : List Delivery) (now : Int) : Server × Cluster sampleBackend :=
  autoscaleTick (Cluster.shardCalls ShardHash.sampleShardHash) sampleOrder now ⟨0, 0⟩ (sampleJoin deliveries)

def sampleDrainLost : List Delivery :=
  [.answered, .lost "deadline exceeded"]

theorem nodes_agree_iff_drain_lost : (sampleJoin sampleDrainLost).2.ring.status "worker-1" = some false ∧
      (sampleIdle sampleDrainLost 120).2.lost = ["worker-1"] ∧ ∀ n, n ≠ "worker-0" →
        n ∉ (sampleIdle sampleDrainLost 120).2.lost.drop (sampleJoin sampleDrainLost).2.lost.length →
        Agrees (sampleIdle sampleDrainLost 120) n := by
  have run : Reach (step (Cluster.shardCalls ShardHash.sampleShardHash)) (Started true 3 sampleConfig)
      (fun x _ => x.1.nodes.seq ≠ -1) (sampleJoin sampleDrainLost) :=
    Reach.next (o := ServerOp.tick sampleOrder 100 ⟨9, 2⟩) (.start (started_sample sampleDrainLost)) (by decide +kernel)
  refine ⟨by decide +kernel, by decide +kernel, ?_⟩
  exact (nodes_agree_iff run (by decide +kernel) sampleOrder 120 ⟨0, 0⟩ rfl).mpr (by decide +kernel)

/-- The answer to the first join is lost. In the next tick nothing is lost, and the node is a member of the ring that
the router does not know. -/
theorem joined_node_unknown :
    Started true 3 sampleConfig (new true 3 sampleConfig, sampleCluster [.lost "deadline exceeded"]) ∧
      (sampleJoin [.lost "deadline exceeded"]).2.lost = ["worker-1"] ∧
      (sampleIdle [.lost "deadline exceeded"] 105).2.lost = ["worker-1"] ∧
      (sampleIdle [.lost "deadline exceeded"] 105).2.ring.status "worker-1" = some false ∧
      "worker-1" ∉ (sampleIdle [.lost "deadline exceeded"] 105).1.nodes.ready :=
  ⟨started_sample _, by decide +kernel, by decide +kernel, by decide +kernel, by decide +kernel⟩

end Server

end LakeKv
