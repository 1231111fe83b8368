import LakeKv.Autoscale
import LakeKv.QueueTurns
import LakeKv.SampleBackend
import Mathlib

namespace LakeKv

open Finset List

theorem workerId_injective {m n : Int64} (h : workerId m = workerId n) : m = n := by
  unfold workerId at h
  have chars := congrArg String.toList h
  rw [String.toList_append, String.toList_append] at chars
  have same : m.toInt.repr = n.toInt.repr := String.toList_injective (append_cancel_left chars)
  exact Int64.toInt_inj.mp (Int.repr_inj.mp same)

theorem ofNat_injective {m n : Nat} (hm : m < 2 ^ 64) (hn : n < 2 ^ 64) (h : Int64.ofNat m = Int64.ofNat n) : m = n := by
  have bits := congrArg Int64.toBitVec h
  rw [Int64.toBitVec_ofNat', Int64.toBitVec_ofNat'] at bits
  have values := congrArg BitVec.toNat bits
  simp only [BitVec.toNat_ofNat] at values
  omega

theorem succ_lt_of_ne {n : Nat} (lt : n < 2 ^ 64) (ne : Int64.ofNat n ≠ -1) : n + 1 < 2 ^ 64 := by
  by_contra big
  have last : n = 2 ^ 64 - 1 := by omega
  subst last
  exact ne (by decide)

theorem le_sub_of_satSub {x y d : Int} (pos : 0 < d) (le : d ≤ Saturating.satSub x y) : d ≤ x - y := by
  simp only [Saturating.satSub, Saturating.clamp, Saturating.i64Min, Saturating.i64Max] at le
  omega

namespace PqScheduler

theorem startLoop_maxInFlight (now : Int) (n : Nat) (st : PqScheduler) :
    (startLoop now n st).maxInFlight = st.maxInFlight := by
  induction n generalizing st with
  | zero => rfl
  | succ n ih =>
    unfold startLoop
    split
    · rfl
    next id _ => exact ih (st.start id now)

theorem step_maxInFlight (st : PqScheduler) (op : PqOp) (other : ∀ n, op ≠ .setMaxInFlight n) :
    (st.step op).maxInFlight = st.maxInFlight := by
  cases op with dsimp only [step]
  | setMaxInFlight n => exact absurd rfl (other n)
  | submit => rfl
  | maybePreempt id order now =>
    split
    · have eq := maybePreempt_eq st (st.requests id).priority (st.requests id).model order now
      have capacity := congrArg PqScheduler.maxInFlight eq
      exact capacity
    · rfl
  | cancel id =>
    dsimp only [cancelSubmit]
    split
    · split <;> rfl
    · rfl
  | setBackpressure => rfl
  | startEligible now =>
    split
    · exact startLoop_maxInFlight now st.queue.length st
    · rfl
  | examine =>
    split
    · unfold examine
      dsimp only
      split <;> rfl
    · rfl
  | settle now =>
    split
    · unfold settle
      split <;> rfl
    · rfl
  | _ => split <;> rfl

end PqScheduler

namespace AutoscaleConfig

variable (c : AutoscaleConfig)

theorem positive_withDefaults : 0 < c.withDefaults.minNodes.toInt ∧ 0 < c.withDefaults.maxNodes.toInt ∧
    0 < c.withDefaults.cooldown.toInt := by
  have one (n d : Int64) (pos : 0 < d.toInt) : 0 < (if n ≤ 0 then d else n).toInt := by
    split
    · exact pos
    next not =>
      rw [Int64.le_iff_toInt_le] at not
      have zero : (0 : Int64).toInt = 0 := rfl
      omega
  exact ⟨one _ _ (by decide), one _ _ (by decide), one _ _ (by decide)⟩

end AutoscaleConfig

namespace Server

variable {σ : Type} {P : ShardCalls σ} {x y : Server × σ} {top : Int64}

/-- Everything that a tick does, one call at a time. `top` is the number of the last node when it begins. -/
inductive Act (P : ShardCalls σ) (top : Int64) (x : Server × σ) : Server × σ → Prop
  | reaps {id : String} (mem : id ∈ x.1.nodes.draining) : Act P top x (reap P x id)
  | waits {a : Autoscaler} (cfg : a.cfg = x.1.scaler.cfg) (last : a.lastAction = x.1.scaler.lastAction) :
      Act P top x ({ x.1 with scaler := a }, x.2)
  | decides {a : Autoscaler} (cfg : a.cfg = x.1.scaler.cfg)
      (cool : x.1.scaler.cfg.cooldown.toInt ≤ Saturating.satSub a.lastAction x.1.scaler.lastAction) :
      Act P top x ({ x.1 with scaler := a, decided := a.lastAction :: x.1.decided }, x.2)
  | joins (here : x.1.nodes.seq = top) (room : x.1.nodes.count < x.1.scaler.cfg.maxNodes) :
      Act P top x (scaleOut P x).1
  | drains {victim : String} {nodes : NodeRegistry} (last : x.1.nodes.lastReady = some victim)
      (marked : x.1.nodes.markDraining victim = some nodes) (spare : x.1.scaler.cfg.minNodes < x.1.nodes.count) :
      Act P top x (drain P ({ x.1 with nodes := nodes }, x.2) victim).1

theorem reap_cases (P : ShardCalls σ) (x : Server × σ) (id : String) : ((P.removeShardNode x.2 id).2 = .ok ∧
      reap P x id = ({ x.1 with nodes := x.1.nodes.remove id }, (P.removeShardNode x.2 id).1)) ∨
    ((P.removeShardNode x.2 id).2 ≠ .ok ∧ reap P x id = (x.1, (P.removeShardNode x.2 id).1)) := by
  unfold reap
  dsimp only
  split
  next ok => exact .inl ⟨ok, rfl⟩
  next other => exact .inr ⟨other, rfl⟩

theorem reap_keeps {id other : String} (mem : other ∈ x.1.nodes.draining) (ne : other ≠ id) :
    other ∈ (reap P x id).1.nodes.draining := by
  rcases reap_cases P x id with ⟨_, eq⟩ | ⟨_, eq⟩ <;> rw [eq]
  · exact mem_erase.mpr ⟨ne, mem⟩
  · exact mem

theorem reap_seq (P : ShardCalls σ) (x : Server × σ) (id : String) : (reap P x id).1.nodes.seq = x.1.nodes.seq := by
  rcases reap_cases P x id with ⟨_, eq⟩ | ⟨_, eq⟩ <;> rw [eq]
  rfl

theorem foldl_reap (top : Int64) (ids : List String) (nodup : ids.Nodup) (x : Server × σ)
    (mem : ∀ id ∈ ids, id ∈ x.1.nodes.draining) :
    Relation.ReflTransGen (Act P top) x (ids.foldl (reap P) x) ∧ (ids.foldl (reap P) x).1.nodes.seq = x.1.nodes.seq := by
  induction ids generalizing x with
  | nil => exact ⟨.refl, rfl⟩
  | cons id ids ih =>
    obtain ⟨fresh, nodup⟩ := nodup_cons.mp nodup
    have rest : ∀ other ∈ ids, other ∈ (reap P x id).1.nodes.draining := by
      intro other later
      refine reap_keeps (mem other (mem_cons_of_mem id later)) ?_
      rintro rfl
      exact fresh later
    obtain ⟨acts, seq⟩ := ih nodup (reap P x id) rest
    exact ⟨.head (.reaps (mem id mem_cons_self)) acts, seq.trans (reap_seq P x id)⟩

theorem reapDraining_acts (top : Int64) (order : RangeOrder) (x : Server × σ) :
    Relation.ReflTransGen (Act P top) x (reapDraining P order x) ∧
      (reapDraining P order x).1.nodes.seq = x.1.nodes.seq := by
  obtain ⟨nodup, mem⟩ := order.listsOnce x.1.nodes.draining
  exact foldl_reap top _ nodup x fun id here => (mem id).mp here

end Server

namespace Autoscaler

variable {a : Autoscaler} {now : Int} {m : MetricsSnapshot} {n : Int64}

theorem observe_keeps (a : Autoscaler) (m : MetricsSnapshot) :
    (a.observe m).cfg = a.cfg ∧ (a.observe m).lastAction = a.lastAction := by
  unfold observe
  split
  · exact ⟨rfl, rfl⟩
  · split <;> exact ⟨rfl, rfl⟩

theorem evaluate_cases (a : Autoscaler) (now : Int) (m : MetricsSnapshot) (n : Int64) :
    (a.evaluate now m n).1.cfg = a.cfg ∧
      (((a.evaluate now m n).2 = .none ∧ (a.evaluate now m n).1.lastAction = a.lastAction) ∨
        (a.evaluate now m n).1.lastAction = now ∧ a.cfg.cooldown.toInt ≤ Saturating.satSub now a.lastAction ∧
          ((a.evaluate now m n).2 = .scaleOut ∧ n < a.cfg.maxNodes ∨
            (a.evaluate now m n).2 = .scaleIn ∧ a.cfg.minNodes < n)) := by
  obtain ⟨cfg, last⟩ := a.observe_keeps m
  unfold evaluate decision
  rw [← cfg, ← last]
  split
  · exact ⟨rfl, .inl ⟨rfl, rfl⟩⟩
  next cool =>
    have cooled := not_lt.mp cool
    split
    next out => exact ⟨rfl, .inr ⟨rfl, cooled, .inl ⟨rfl, out.2⟩⟩⟩
    split
    next down => exact ⟨rfl, .inr ⟨rfl, cooled, .inr ⟨rfl, down.2⟩⟩⟩
    · exact ⟨rfl, .inl ⟨rfl, rfl⟩⟩

end Autoscaler

namespace Server

variable {σ : Type} {P : ShardCalls σ} {x y : Server × σ} {top : Int64} (order : RangeOrder)

theorem scaleIn_acts (spare : x.1.scaler.cfg.minNodes < x.1.nodes.count) :
    Relation.ReflTransGen (Act P top) x (scaleIn P order x).1 := by
  unfold scaleIn
  split
  · exact .refl
  next victim last =>
    split
    · exact .refl
    next nodes marked =>
      have one : Act P top x (drain P ({ x.1 with nodes := nodes }, x.2) victim).1 := .drains last marked spare
      split
      next y ok =>
        rw [ok] at one
        exact .head one (reapDraining_acts top order y).1
      next y _ err =>
        rw [err] at one
        exact .single one

theorem tick_acts (now : Int) (m : MetricsSnapshot) (x : Server × σ) :
    Relation.ReflTransGen (Act P x.1.nodes.seq) x (autoscaleTick P order now m x) := by
  obtain ⟨reaped, seq⟩ := reapDraining_acts (P := P) x.1.nodes.seq order x
  unfold autoscaleTick
  dsimp only
  generalize reapDraining P order x = y at reaped seq
  refine reaped.trans ?_
  split
  · obtain ⟨cfg, none | ⟨acted, cool, decision⟩⟩ := y.1.scaler.evaluate_cases now m y.1.nodes.count
    · rw [none.1]
      exact .single (.waits cfg none.2)
    · generalize y.1.scaler.evaluate now m y.1.nodes.count = answer at cfg acted decision
      have decides : Act P x.1.nodes.seq y
          ({ y.1 with scaler := answer.1, decided := answer.1.lastAction :: y.1.decided }, y.2) :=
        .decides cfg (acted ▸ cool)
      rw [acted] at decides
      rcases decision with ⟨out, room⟩ | ⟨down, spare⟩
      · rw [out]
        refine .head decides (.single ?_)
        refine .joins seq ?_
        rw [← cfg] at room
        exact room
      · rw [down]
        refine .head decides ?_
        refine scaleIn_acts order ?_
        rw [← cfg] at spare
        exact spare
  · exact .refl

section Victims

variable {r nodes : NodeRegistry} {victim : String}

theorem lastReady_split (nodup : r.ready.Nodup) (last : r.lastReady = some victim) :
    ∃ front, r.ready = front ++ [victim] ∧ victim ∉ front ∧ r.ready.erase victim = front := by
  obtain ⟨front, split⟩ := getLast?_eq_some_iff.mp last
  rw [split] at nodup ⊢
  have fresh : victim ∉ front := by
    intro mem
    exact (nodup_append.mp nodup).2.2 victim mem victim mem_cons_self rfl
  refine ⟨front, rfl, fresh, ?_⟩
  rw [erase_append_right _ fresh, erase_cons_head, append_nil]

theorem markDraining_eq (marked : r.markDraining victim = some nodes) :
    nodes = { r with ready := r.ready.erase victim, draining := insert victim r.draining } := by
  unfold NodeRegistry.markDraining at marked
  split at marked
  · exact (Option.some.inj marked).symm
  · cases marked

theorem unmark_mark (nodup : r.ready.Nodup) (apart : ∀ n ∈ r.ready, n ∉ r.draining)
    (last : r.lastReady = some victim) (marked : r.markDraining victim = some nodes) :
    nodes.unmarkDraining victim = r := by
  obtain ⟨front, split, fresh, rest⟩ := lastReady_split nodup last
  have free : victim ∉ r.draining := apart victim (split ▸ mem_append_right front mem_cons_self)
  rw [markDraining_eq marked]
  unfold NodeRegistry.unmarkDraining
  rw [if_pos (mem_insert_self victim r.draining)]
  dsimp only
  rw [rest, ← split, erase_insert free]

end Victims

theorem scaleOut_cases (P : ShardCalls σ) (x : Server × σ) :
    ((P.joinShardNode x.2 x.1.nodes.nextID.2).2 = .ok ∧ (scaleOut P x).1 = ({ x.1 with
          nodes := x.1.nodes.nextID.1.add x.1.nodes.nextID.2
          issued := x.1.nodes.nextID.2 :: x.1.issued }.syncCapacity,
        (P.joinShardNode x.2 x.1.nodes.nextID.2).1)) ∨
    ((P.joinShardNode x.2 x.1.nodes.nextID.2).2 ≠ .ok ∧ (scaleOut P x).1 = ({ x.1 with
          nodes := x.1.nodes.nextID.1
          issued := x.1.nodes.nextID.2 :: x.1.issued },
        (P.joinShardNode x.2 x.1.nodes.nextID.2).1)) := by
  unfold scaleOut
  dsimp only
  split
  next ok => exact .inl ⟨ok, rfl⟩
  next rejected => exact .inr ⟨by rw [rejected]; simp, rfl⟩
  next failed => exact .inr ⟨by rw [failed]; simp, rfl⟩

theorem drain_cases (P : ShardCalls σ) (x : Server × σ) (victim : String) : ((P.drainShardNode x.2 victim).2 = .ok ∧
      (drain P x victim).1 = (x.1.syncCapacity, (P.drainShardNode x.2 victim).1)) ∨
    ((P.drainShardNode x.2 victim).2 ≠ .ok ∧ (drain P x victim).1 =
      ({ x.1 with nodes := x.1.nodes.unmarkDraining victim }.syncCapacity, (P.drainShardNode x.2 victim).1)) := by
  unfold drain
  dsimp only
  split
  next ok => exact .inl ⟨ok, rfl⟩
  next rejected => exact .inr ⟨by rw [rejected]; simp, rfl⟩
  next failed => exact .inr ⟨by rw [failed]; simp, rfl⟩

def capacityOf (n : Int64) : Nat :=
  if n.toInt ≤ 0 then 1 else n.toInt.toNat

structure Steady (cfg : AutoscaleConfig) (s : Server) : Prop where
  config : s.scaler.cfg = cfg.withDefaults
  nodup : s.nodes.ready.Nodup
  apart : ∀ n ∈ s.nodes.ready, n ∉ s.nodes.draining
  first : s.nodes.ready.head? = some "worker-0"
  atMost : (s.nodes.ready.length : Int) ≤ cfg.withDefaults.maxNodes.toInt
  numbered : s.issued.length < 2 ^ 64 ∧ s.nodes.seq = Int64.ofNat s.issued.length
  issued : ∀ n ∈ s.issued, ∃ k, 0 < k ∧ k ≤ s.issued.length ∧ n = workerId (Int64.ofNat k)
  distinct : s.issued.Nodup
  known : ∀ n, n ∈ s.nodes.ready ∨ n ∈ s.nodes.draining → n = "worker-0" ∨ n ∈ s.issued
  capacity : s.sched.maxInFlight = capacityOf (s.base * s.nodes.count)
  spaced : s.decided.Pairwise fun later earlier => cfg.withDefaults.cooldown.toInt ≤ later - earlier
  latest : ∀ t ∈ s.decided, t ≤ s.scaler.lastAction

namespace Steady

variable {cfg : AutoscaleConfig} {s : Server}

section

variable (steady : s.Steady cfg)
include steady

theorem fresh (lasts : s.nodes.seq ≠ -1) :
    s.issued.length + 1 < 2 ^ 64 ∧ s.nodes.nextID.2 = workerId (Int64.ofNat (s.issued.length + 1)) ∧
      s.nodes.nextID.2 ∉ s.issued ∧ s.nodes.nextID.2 ≠ "worker-0" := by
  obtain ⟨short, seq⟩ := steady.numbered
  have next : s.issued.length + 1 < 2 ^ 64 := succ_lt_of_ne short (seq ▸ lasts)
  have name : s.nodes.nextID.2 = workerId (Int64.ofNat (s.issued.length + 1)) := by
    change workerId (s.nodes.seq + 1) = _
    rw [seq, Int64.ofNat_add]
    rfl
  refine ⟨next, name, ?_, ?_⟩
  · intro mem
    obtain ⟨k, _, le, eq⟩ := steady.issued _ mem
    rw [name] at eq
    have same := ofNat_injective next (by omega) (workerId_injective eq)
    omega
  · intro zero
    have eq : workerId (Int64.ofNat (s.issued.length + 1)) = workerId (Int64.ofNat 0) := name.symm.trans zero
    have same := ofNat_injective next (by omega) (workerId_injective eq)
    omega

theorem absent (lasts : s.nodes.seq ≠ -1) : s.nodes.nextID.2 ∉ s.nodes.ready ∧ s.nodes.nextID.2 ∉ s.nodes.draining := by
  obtain ⟨_, _, new, other⟩ := steady.fresh lasts
  constructor <;> intro mem
  · exact (steady.known _ (.inl mem)).elim other new
  · exact (steady.known _ (.inr mem)).elim other new

theorem count_toInt : s.nodes.count.toInt = s.nodes.ready.length := by
  have le := steady.atMost
  have lt := Int64.toInt_lt cfg.withDefaults.maxNodes
  exact Int64.toInt_ofNat_of_lt (by omega)

theorem issued_cons (lasts : s.nodes.seq ≠ -1) :
    ∀ n ∈ s.nodes.nextID.2 :: s.issued, ∃ k, 0 < k ∧ k ≤ s.issued.length + 1 ∧ n = workerId (Int64.ofNat k) := by
  intro n mem
  rcases mem_cons.mp mem with rfl | mem
  · exact ⟨s.issued.length + 1, Nat.succ_pos _, le_refl _, (steady.fresh lasts).2.1⟩
  · obtain ⟨k, pos, le, eq⟩ := steady.issued n mem
    exact ⟨k, pos, Nat.le_succ_of_le le, eq⟩

theorem numbered_next (lasts : s.nodes.seq ≠ -1) :
    s.issued.length + 1 < 2 ^ 64 ∧ s.nodes.seq + 1 = Int64.ofNat (s.issued.length + 1) := by
  refine ⟨(steady.fresh lasts).1, ?_⟩
  rw [steady.numbered.2, Int64.ofNat_add]
  rfl

end

theorem reap (steady : x.1.Steady cfg) (P : ShardCalls σ) (id : String) : (reap P x id).1.Steady cfg := by
  rcases reap_cases P x id with ⟨_, eq⟩ | ⟨_, eq⟩ <;> rw [eq]
  · refine { steady with apart := ?_, known := ?_ }
    · intro n mem gone
      exact steady.apart n mem (mem_of_mem_erase gone)
    · intro n mem
      exact steady.known n (mem.imp_right mem_of_mem_erase)
  · exact steady

/-- A scale-out below the maximum keeps the bounds. -/
theorem scaleOut (steady : x.1.Steady cfg) (P : ShardCalls σ) (lasts : x.1.nodes.seq ≠ -1)
    (room : x.1.nodes.count < x.1.scaler.cfg.maxNodes) : (scaleOut P x).1.1.Steady cfg := by
  obtain ⟨_, _, new, other⟩ := steady.fresh lasts
  obtain ⟨notReady, notDraining⟩ := steady.absent lasts
  rcases scaleOut_cases P x with ⟨_, eq⟩ | ⟨_, eq⟩ <;> rw [eq]
  · refine ⟨steady.config, ?_, ?_, ?_, ?_, steady.numbered_next lasts, steady.issued_cons lasts,
      nodup_cons.mpr ⟨new, steady.distinct⟩, ?_, rfl, steady.spaced, steady.latest⟩
    · change (x.1.nodes.ready ++ [x.1.nodes.nextID.2]).Nodup
      rw [← concat_eq_append]
      exact steady.nodup.concat notReady
    · intro n mem gone
      have before := mem_of_mem_erase gone
      rcases mem_append.mp mem with mem | mem
      · exact steady.apart n mem before
      · rw [List.mem_singleton.mp mem] at before
        exact notDraining before
    · change (x.1.nodes.ready ++ [x.1.nodes.nextID.2]).head? = some "worker-0"
      rw [head?_append, steady.first]
      rfl
    · have below := Int64.lt_iff_toInt_lt.mp room
      rw [steady.count_toInt, steady.config] at below
      change ((x.1.nodes.ready ++ [x.1.nodes.nextID.2]).length : Int) ≤ _
      rw [length_append, length_singleton]
      omega
    · intro n mem
      rcases mem with mem | mem
      · rcases mem_append.mp mem with mem | mem
        · exact (steady.known n (.inl mem)).imp_right (mem_cons_of_mem _)
        · exact .inr (List.mem_singleton.mp mem ▸ mem_cons_self)
      · exact (steady.known n (.inr (mem_of_mem_erase mem))).imp_right (mem_cons_of_mem _)
  · refine { steady with
      numbered := steady.numbered_next lasts
      issued := steady.issued_cons lasts
      distinct := nodup_cons.mpr ⟨new, steady.distinct⟩
      known := ?_ }
    intro n mem
    exact (steady.known n mem).imp_right (mem_cons_of_mem _)

theorem syncCapacity (steady : s.Steady cfg) : s.syncCapacity.Steady cfg :=
  { steady with capacity := rfl }

theorem victim (steady : s.Steady cfg) {victim : String} (last : s.nodes.lastReady = some victim)
    (spare : s.scaler.cfg.minNodes < s.nodes.count) :
    ∃ front, s.nodes.ready = front ++ [victim] ∧ victim ∉ front ∧ s.nodes.ready.erase victim = front ∧
      front.head? = some "worker-0" := by
  obtain ⟨front, split, fresh, rest⟩ := lastReady_split steady.nodup last
  refine ⟨front, split, fresh, rest, ?_⟩
  have above := Int64.lt_iff_toInt_lt.mp spare
  rw [steady.count_toInt, steady.config] at above
  have least := cfg.positive_withDefaults.1
  have first := steady.first
  rw [split] at first above
  cases front with
  | nil =>
    change (cfg.withDefaults.minNodes.toInt : Int) < 1 at above
    omega
  | cons => exact first

theorem drain (steady : x.1.Steady cfg) (P : ShardCalls σ) {victim : String} {nodes : NodeRegistry}
    (last : x.1.nodes.lastReady = some victim) (marked : x.1.nodes.markDraining victim = some nodes)
    (spare : x.1.scaler.cfg.minNodes < x.1.nodes.count) :
    (drain P ({ x.1 with nodes := nodes }, x.2) victim).1.1.Steady cfg := by
  rcases drain_cases P ({ x.1 with nodes := nodes }, x.2) victim with ⟨_, eq⟩ | ⟨_, eq⟩ <;> rw [eq]
  · obtain ⟨front, split, fresh, rest, first⟩ := steady.victim last spare
    have nodup := steady.nodup
    have atMost := steady.atMost
    have known := steady.known
    rw [split] at nodup atMost known
    rw [markDraining_eq marked, rest]
    refine ⟨steady.config, (nodup_append.mp nodup).1, ?_, first, ?_, steady.numbered, steady.issued,
      steady.distinct, ?_, rfl, steady.spaced, steady.latest⟩
    · intro n mem gone
      rcases mem_insert.mp gone with rfl | gone
      · exact fresh mem
      · exact steady.apart n (split ▸ mem_append_left _ mem) gone
    · rw [length_append] at atMost
      change (front.length : Int) ≤ _
      omega
    · intro n mem
      rcases mem with mem | mem
      · exact known n (.inl (mem_append_left _ mem))
      · rcases mem_insert.mp mem with rfl | mem
        · exact known n (.inl (mem_append_right _ mem_cons_self))
        · exact known n (.inr mem)
  · dsimp only
    rw [unmark_mark steady.nodup steady.apart last marked]
    exact steady.syncCapacity

theorem act (steady : x.1.Steady cfg) (lasts : top ≠ -1) (act : Act P top x y) : y.1.Steady cfg := by
  cases act with
  | reaps mem => exact steady.reap P _
  | waits same last =>
    refine { steady with config := same.trans steady.config, latest := ?_ }
    intro t mem
    exact (steady.latest t mem).trans_eq last.symm
  | @decides a same cool =>
    have apart : ∀ t ∈ x.1.decided, cfg.withDefaults.cooldown.toInt ≤ a.lastAction - t := by
      intro t mem
      have before := steady.latest t mem
      rw [steady.config] at cool
      have after := le_sub_of_satSub cfg.positive_withDefaults.2.2 cool
      omega
    refine { steady with
      config := same.trans steady.config
      spaced := pairwise_cons.mpr ⟨apart, steady.spaced⟩
      latest := ?_ }
    intro t mem
    rcases mem_cons.mp mem with rfl | mem
    · exact le_refl _
    have gap := apart t mem
    have positive := cfg.positive_withDefaults.2.2
    change t ≤ a.lastAction
    omega
  | joins here room => exact steady.scaleOut P (here ▸ lasts) room
  | drains last marked spare => exact steady.drain P last marked spare

end Steady

section Runs

variable {cfg : AutoscaleConfig} {s : Server} (autoscale : Bool) (maxInFlight : Int64)

theorem new_worker0 : (NodeRegistry.new ["worker-0"]).seq = 0 := by
  decide +kernel

theorem base_new (cfg : AutoscaleConfig) :
    (new autoscale maxInFlight cfg).base = (new autoscale maxInFlight cfg).maxInFlight := by
  unfold base new
  dsimp only
  split <;> rfl

theorem steady_new (cfg : AutoscaleConfig) :
    (new autoscale maxInFlight cfg).Steady cfg := by
  have least := cfg.positive_withDefaults.2.1
  refine ⟨rfl, nodup_singleton _, ?_, rfl, ?_, ⟨Nat.two_pow_pos 64, new_worker0⟩, ?_, nodup_nil, ?_, ?_,
    List.Pairwise.nil, ?_⟩
  · intro n _
    exact notMem_empty n
  · change (1 : Int) ≤ _
    omega
  · intro n mem
    exact absurd mem not_mem_nil
  · intro n mem
    rcases mem with mem | mem
    · exact .inl (List.mem_singleton.mp mem)
    · exact absurd mem (notMem_empty n)
  · have one : (new autoscale maxInFlight cfg).nodes.count = 1 := rfl
    rw [base_new, one, Int64.mul_one]
    rfl
  · intro t mem
    exact absurd mem not_mem_nil

theorem Steady.step (steady : x.1.Steady cfg) (op : ServerOp) (lasts : x.1.nodes.seq ≠ -1) :
    (step P x op).1.Steady cfg := by
  cases op with
  | tick order now metrics =>
    have acts := tick_acts (P := P) order now metrics x
    change (autoscaleTick P order now metrics x).1.Steady cfg
    generalize autoscaleTick P order now metrics x = y at acts
    induction acts with
    | refl => exact steady
    | tail _ act ih => exact ih.act lasts act
  | schedule op =>
    unfold Server.step
    split
    next op' _ _ same => cases same
    · exact steady
    next op' other same =>
      cases same
      have kept := PqScheduler.step_maxInFlight x.1.sched op fun n eq => other n (by rw [eq])
      exact { steady with capacity := kept.trans steady.capacity }

/-- The bounds of the autoscaler. The capacity is an `int`, and the product is what it should be exactly when it is not
too large for one. -/
structure Bounded (cfg : AutoscaleConfig) (s : Server) : Prop where
  nodup : s.nodes.ready.Nodup
  apart : ∀ n ∈ s.nodes.ready, n ∉ s.nodes.draining
  first : s.nodes.ready.head? = some "worker-0"
  between : 1 ≤ s.nodes.ready.length ∧ (s.nodes.ready.length : Int) ≤ cfg.withDefaults.maxNodes.toInt
  unique : ("worker-0" :: s.issued).Nodup ∧
    ∀ n, n ∈ s.nodes.ready ∨ n ∈ s.nodes.draining → n ∈ "worker-0" :: s.issued
  capacity : (s.sched.maxInFlight : Int) = s.base.toInt * s.nodes.ready.length ↔
    s.base.toInt * s.nodes.ready.length < 2 ^ 63
  spaced : s.decided.Pairwise fun later earlier => cfg.withDefaults.cooldown.toInt ≤ later - earlier

theorem base_positive (s : Server) : 0 < s.base.toInt := by
  unfold base
  split
  · decide
  next not =>
    rw [Int64.le_iff_toInt_le] at not
    have zero : (0 : Int64).toInt = 0 := rfl
    omega

theorem capacityOf_iff {m n : Int64} (pos : 0 < m.toInt * n.toInt) :
    (capacityOf (m * n) : Int) = m.toInt * n.toInt ↔ m.toInt * n.toInt < 2 ^ 63 := by
  have value := Int64.toInt_mul m n
  have small := Int64.toInt_lt (m * n)
  unfold capacityOf
  constructor
  · intro eq
    split at eq <;> omega
  · intro lt
    have exact : (m * n).toInt = m.toInt * n.toInt := by
      rw [value]
      exact Int.bmod_eq_of_le (by omega) (by omega)
    rw [if_neg (by omega), Int.toNat_of_nonneg (by omega), exact]

theorem Steady.bounded (steady : s.Steady cfg) : s.Bounded cfg := by
  have nonempty : 1 ≤ s.nodes.ready.length := by
    have first := steady.first
    cases ready : s.nodes.ready with
    | nil =>
      rw [ready] at first
      cases first
    | cons => exact Nat.succ_pos _
  have zero : "worker-0" ∉ s.issued := by
    intro mem
    obtain ⟨k, pos, le, eq⟩ := steady.issued _ mem
    have short := steady.numbered.1
    have name : workerId (Int64.ofNat k) = workerId (Int64.ofNat 0) := eq.symm
    have same := ofNat_injective (by omega) (by omega) (workerId_injective name)
    omega
  refine ⟨steady.nodup, steady.apart, steady.first, ⟨nonempty, steady.atMost⟩,
    ⟨nodup_cons.mpr ⟨zero, steady.distinct⟩, ?_⟩, ?_, steady.spaced⟩
  · intro n mem
    exact mem_cons.mpr (steady.known n mem)
  · rw [steady.capacity, ← steady.count_toInt]
    refine capacityOf_iff (Int.mul_pos s.base_positive ?_)
    rw [steady.count_toInt]
    omega

/-- In every run of the autoscaler, whatever the control plane answers, its bounds hold as long as the numbers for new
nodes last. -/
theorem autoscale_bounded {autoscale : Bool} {maxInFlight : Int64}
    (run : Reach (step P) (fun x => x.1 = new autoscale maxInFlight cfg) (fun x _ => x.1.nodes.seq ≠ -1) x) :
    x.1.Bounded cfg := by
  have steady : x.1.Steady cfg := by
    refine run.invariant (I := fun x => x.1.Steady cfg) ?_ ?_
    · intro x start
      rw [start]
      exact steady_new autoscale maxInFlight cfg
    · intro x op steady lasts
      exact steady.step op lasts
  exact steady.bounded

def sampleConfig : AutoscaleConfig :=
  ⟨1, 8, 4, 0, 1, 10⟩

def sampleOrder : RangeOrder :=
  ⟨Finset.ascending, listsOnce_ascending⟩

/-- A control plane that lets nodes join and drain, and cannot be asked to remove one. -/
def sampleCalls : ShardCalls Unit :=
  ⟨fun c _ => (c, .ok), fun c _ => (c, .ok), fun c _ => (c, .failed "unavailable")⟩

def busyTick (now : Int) : ServerOp :=
  .tick sampleOrder now ⟨9, 2⟩

def idleTick (now : Int) : ServerOp :=
  .tick sampleOrder now ⟨0, 0⟩

theorem autoscale_bounded_out_and_in :
    let x := [busyTick 100, busyTick 105, busyTick 110, idleTick 120].foldl (step sampleCalls) (new true 3 sampleConfig, ())
    x.1.Bounded sampleConfig ∧ x.1.nodes.ready = ["worker-0", "worker-1"] ∧ x.1.decided = [120, 110, 100] := by
  have run : Reach (step sampleCalls) (fun x => x.1 = new true 3 sampleConfig) (fun x _ => x.1.nodes.seq ≠ -1)
      ([busyTick 100, busyTick 105, busyTick 110, idleTick 120].foldl (step sampleCalls)
        (new true 3 sampleConfig, ())) := by
    refine Reach.foldl (.start ?_) (by decide +kernel)
    rfl
  exact ⟨autoscale_bounded run, by decide +kernel, by decide +kernel⟩

/-- With a limit of `2 ^ 62` requests for one node, two nodes together may run one. -/
theorem capacity_overflows :
    let x := step sampleCalls (new true 4611686018427387904 sampleConfig, ()) (busyTick 100)
    x.1.nodes.ready = ["worker-0", "worker-1"] ∧ x.1.base = 4611686018427387904 ∧ x.1.sched.maxInFlight = 1 := by
  refine ⟨by decide +kernel, by decide +kernel, by decide +kernel⟩

end Runs

end Server

end LakeKv
