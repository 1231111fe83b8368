import LakeKv.ExportedRows
import LakeKv.ViewExactness

namespace LakeKv

open Authority Finmap Function List ViewMirror

variable {B : Backend}

/-- A `subscribe_view` task, without a number until it has read the authority: `wire` is on its way to the mirror, `queue`
in the broadcast channel. -/
structure Subscription where
  last : Option Nat
  wire : List ViewUpdate
  queue : List ViewUpdate

structure Replica (B : Backend) where
  authority : Authority B
  mirror : ViewMirror
  sub : Option Subscription

/-- `write` is a handler's call with its `commit_and_broadcast`, under one lock; a handler without one queues no event. -/
inductive ReplicaStep
  | write (op : Op)
  | subscribe
  | read
  | forward
  | lag (n : Nat)
  | receive
  | disconnect

def anchorUpdate (seq : Nat) : Option ViewUpdate :=
  if 0 < seq then some ⟨seq, []⟩ else none

def Authority.snapshotWithAnchor (a : Authority B) : List ViewUpdate × Nat :=
  (a.viewSnapshot :: (anchorUpdate a.viewLog.lastSeq).toList, a.viewLog.lastSeq)

def Authority.subscribeView (a : Authority B) (resume : Nat) : List ViewUpdate × Nat :=
  if resume = 0 then a.snapshotWithAnchor
  else match a.viewLog.replayAfter resume with
    | some ups => (ups, (ups.getLast?.map ViewUpdate.seq).getD resume)
    | none => a.snapshotWithAnchor

namespace Subscription

def read (t : Subscription) (a : Authority B) (resume : Nat) : Subscription :=
  match t.last with
  | some _ => t
  | none => ⟨some (a.subscribeView resume).2, (a.subscribeView resume).1, t.queue⟩

def forward (t : Subscription) : Subscription :=
  match t.last, t.queue with
  | some last, u :: queue =>
    if u.seq = 0 then ⟨some 0, t.wire ++ [u], queue⟩
    else if u.seq ≤ last then { t with queue := queue }
    else ⟨some u.seq, t.wire ++ [u], queue⟩
  | _, _ => t

/-- The channel has dropped `n` updates the task was too slow for. -/
def lag (t : Subscription) (a : Authority B) (n : Nat) : Subscription :=
  match t.last with
  | some _ => ⟨some a.viewLog.lastSeq, t.wire ++ a.snapshotWithAnchor.1, t.queue.drop n⟩
  | none => t

end Subscription

namespace Replica

/-- An update that cannot be applied ends the stream. -/
def receive (s : Replica B) : Replica B :=
  match s.sub with
  | some ⟨last, u :: wire, queue⟩ =>
    match s.mirror.apply u with
    | .ok m => { s with mirror := m, sub := some ⟨last, wire, queue⟩ }
    | .error _ => { s with sub := none }
  | _ => s

def step (s : Replica B) : ReplicaStep → Replica B
  | .write op =>
    let committed := (s.authority.step op).commitViewEvents
    { s with
      authority := committed.1
      sub := s.sub.map fun t => { t with queue := t.queue ++ committed.2.toList } }
  | .subscribe => { s with sub := some ⟨none, [], []⟩ }
  | .read => { s with sub := s.sub.map (·.read s.authority s.mirror.lastSeq) }
  | .forward => { s with sub := s.sub.map .forward }
  | .lag n => { s with sub := s.sub.map (·.lag s.authority n) }
  | .receive => s.receive
  | .disconnect => { s with sub := none }

/-- No restore, and no discard that names a block with the pool kind left open. -/
def Exact (s : Replica B) : ReplicaStep → Prop
  | .write op => op.replaces = false ∧ ∀ ids, op = .discardBlocks ids → ¬s.authority.Echoes ids
  | _ => True

end Replica

section Histories

variable {L us : List ViewUpdate} {u : ViewUpdate} {k n : Nat}

/-- Updates with the numbers from one on, none of them empty. -/
def Numbered (L : List ViewUpdate) : Prop :=
  ∀ i (lt : i < L.length), L[i].seq = i + 1 ∧ L[i].events ≠ []

def viewAt (L : List ViewUpdate) (n : Nat) : View :=
  View.empty.applyEvents ((L.take n).flatMap ViewUpdate.events)

theorem viewAt_append (le : n ≤ L.length) : viewAt (L ++ us) n = viewAt L n := by
  rw [viewAt, take_append_of_le_length le]
  rfl

theorem viewAt_succ (lt : n < L.length) : viewAt L (n + 1) = (viewAt L n).applyEvents L[n].events := by
  rw [viewAt, take_succ_eq_append_getElem lt, flatMap_append, View.applyEvents_append]
  simp [viewAt]

theorem Numbered.concat (h : Numbered L) (next : u.seq = L.length + 1) (some : u.events ≠ []) : Numbered (L ++ [u]) := by
  intro i lt
  rw [getElem_append]
  split
  next lt => exact h i lt
  next last =>
    obtain rfl : i = L.length := by
      rw [length_append, length_singleton] at lt
      omega
    simp [next, some]

theorem Numbered.filter_drop (h : Numbered L) (le : k ≤ n) (fits : n ≤ L.length) :
    (L.drop k).filter (fun u => n < u.seq) = L.drop n := by
  induction le using Nat.decreasingInduction with
  | self =>
    refine filter_eq_self.mpr fun u mem => ?_
    obtain ⟨i, lt, rfl⟩ := getElem_of_mem mem
    rw [getElem_drop, (h _ _).1]
    exact decide_eq_true (by omega)
  | of_succ k lt ih =>
    have early : ¬n < L[k].seq := by
      rw [(h k _).1]
      omega
    rw [drop_eq_getElem_cons (lt.trans_le fits), filter_cons_of_neg (by simpa using early), ih]

end Histories

theorem ViewMirror.lastSeq_applyEvents (m : ViewMirror) (es : List ViewEvent) : (m.applyEvents es).lastSeq = m.lastSeq := by
  refine foldlRecOn (motive := fun (m' : ViewMirror) => m'.lastSeq = m.lastSeq) es _ rfl fun m' same ev _ => ?_
  unfold applyEvent deleteLocked upsertLocked
  repeat' split
  all_goals exact same

namespace View

variable {v w : View} {es : List ViewEvent} {k : BlockKey}

/-- Events that all show what `v` shows. -/
def Shows (v : View) (es : List ViewEvent) : Prop :=
  ∀ ev ∈ es, ∃ id, ev.id = some id ∧ ev.kind ≠ .invalidated ∧ v (keyOf id) = some (ev.locations, ev.l3Present)

theorem Shows.applyEvents (shows : v.Shows es) (known : w k = v k ∨ ∃ ev ∈ es, ev.id.map keyOf = some k) :
    w.applyEvents es k = v k := by
  induction es generalizing w with
  | nil => exact known.resolve_right (by simp)
  | cons ev es ih =>
    obtain ⟨id, named, upsert, shown⟩ := shows ev mem_cons_self
    have first : w.applyEvent ev = update w (keyOf id) (v (keyOf id)) := by
      rw [shown]
      simp only [applyEvent, named, upsert, ↓reduceIte]
    refine ih (fun ev mem => shows ev (mem_cons_of_mem _ mem)) ?_
    rw [first]
    by_cases same : k = keyOf id
    · exact .inl (same ▸ update_self ..)
    rw [update_of_ne same]
    refine known.imp_right ?_
    rintro ⟨_, _ | ⟨_, mem⟩, here⟩
    · rw [named] at here
      exact absurd (Option.some.inj here).symm same
    · exact ⟨_, mem, here⟩

end View

namespace Authority

theorem mem_viewSnapshot {a : Authority B} {ev : ViewEvent} : ev ∈ a.viewSnapshot.events ↔
    ∃ key pk p flat e, a.pool? key pk = some p ∧ p.byFlat.lookup flat = some e ∧
      ev = upsertEvent .registered (e.blockMeta.id.getD (publicId key pk flat)) e.blockMeta.locations
        e.blockMeta.l3Present e.blockMeta.blockKind := by
  simp only [viewSnapshot, snapshotNs, snapshotPool, mem_flatMap, mem_getD_map, mem_filterMap, Option.map_eq_some_iff,
    Finset.mem_ascending]
  constructor
  · rintro ⟨key, -, ns, hns, pk, -, p, hp, flat, -, e, he, rfl⟩
    exact ⟨key, pk, p, flat, e, pool?_eq_some.mpr ⟨ns, hns, hp⟩, he, rfl⟩
  · rintro ⟨key, pk, p, flat, e, pool, he, rfl⟩
    obtain ⟨ns, hns, hp⟩ := pool?_eq_some.mp pool
    exact ⟨key, Finmap.mem_keys.mpr (mem_of_lookup_eq_some hns), ns, hns, pk,
      Finmap.mem_keys.mpr (mem_of_lookup_eq_some hp), p, hp, flat, Finmap.mem_keys.mpr (mem_of_lookup_eq_some he), e, he, rfl⟩

/-- The snapshot shows the view of the authority. -/
theorem view_snapshot {a : Authority B} (keyed : a.Keyed) (m : ViewMirror) :
    ∃ m', m.apply a.viewSnapshot = .ok m' ∧ m'.lastSeq = 0 ∧ m'.view = a.view := by
  have shows : a.view.Shows a.viewSnapshot.events := by
    intro ev mem
    obtain ⟨key, pk, p, flat, e, pool, block, rfl⟩ := mem_viewSnapshot.mp mem
    refine ⟨_, rfl, nofun, ?_⟩
    rw [(keyed key pk p pool flat e block).files, view, block?_eq_some.mpr ⟨p, pool, block⟩]
    rfl
  have upserts : a.viewSnapshot.events.foldl ViewMirror.upsertLocked ⟨0, ∅⟩ =
      ViewMirror.new.applyEvents a.viewSnapshot.events := by
    refine foldl_ext _ _ _ fun m ev mem => ?_
    obtain ⟨id, -, upsert, -⟩ := shows ev mem
    exact (if_neg upsert).symm
  refine ⟨_, if_pos rfl, ?_, ?_⟩
  · rw [upserts, lastSeq_applyEvents]
    rfl
  rw [upserts, view_applyEvents, view_new]
  refine funext fun k => shows.applyEvents ?_
  cases found : a.block? k with
  | none =>
    left
    rw [view, found]
    rfl
  | some e =>
    obtain ⟨p, pool, block⟩ := block?_eq_some.mp found
    refine .inr ⟨_, mem_viewSnapshot.mpr ⟨k.ns, k.poolKind, p, k.flat, e, pool, block, rfl⟩, ?_⟩
    exact congrArg some (keyed k.ns k.poolKind p pool k.flat e block).files

/-- In every state the authority can come to, also by a restore, its snapshot gives any mirror the view of the authority. -/
theorem snapshot_mirrored (hB : B.Lawful) {a : Authority B} (run : a.Reachable) (m : ViewMirror) :
    ∃ m', m.apply a.viewSnapshot = .ok m' ∧ m'.lastSeq = 0 ∧ m'.view = a.view :=
  a.view_snapshot (run.keyed hB) m

theorem snapshot_mirrored_echo : echoAuthority.Reachable ∧
    ∃ m', echoMirror.apply echoAuthority.viewSnapshot = .ok m' ∧ m'.lastSeq = 0 ∧ m'.view = echoAuthority.view :=
  ⟨sampleRun_reachable _, snapshot_mirrored sampleBackend_lawful (sampleRun_reachable _) echoMirror⟩

end Authority

theorem Authority.Run.viewLog {may : NamespaceKey → NsAction B → Prop} {a b : Authority B} (h : a.Run may b) :
    b.viewLog = a.viewLog := by
  induction h with
  | refl => rfl
  | act _ _ _ _ _ ih | add _ _ _ _ _ ih | remove _ _ _ ih | ledger _ _ _ ih => exact ih
  | frame _ same ih => exact same.viewLog.trans ih

section Steps

variable (L : List ViewUpdate)

/-- The mirror is the view of its number; a mirror without a number waits for its anchor. -/
structure Aligned (m : ViewMirror) : Prop where
  le : m.lastSeq ≤ L.length
  view : m.lastSeq ≠ 0 → m.view = viewAt L m.lastSeq

/-- Applied one after the other the updates bring the mirror to the view of number `n`. -/
def Feeds (n : Nat) : ViewMirror → List ViewUpdate → Prop
  | m, [] => m.lastSeq = n ∧ m.view = viewAt L n
  | m, u :: us => ∃ m', m.apply u = .ok m' ∧ Aligned L m' ∧ Feeds n m' us

/-- The updates `L` are all the authority has committed. -/
structure Published (a : Authority B) : Prop where
  keyed : a.Keyed
  pending : a.pendingViewEvents = []
  numbered : Numbered L
  view : a.view = viewAt L L.length
  next : a.viewLog.nextSeq = L.length + 1
  kept : ∃ k ≤ L.length, a.viewLog.updates = L.drop k

inductive Subscribed (m : ViewMirror) : Subscription → Prop
  | waiting {j : Nat} (fits : j ≤ L.length) : Subscribed m ⟨none, [], L.drop j⟩
  | running {j n : Nat} {wire : List ViewUpdate} (le : j ≤ n) (fits : n ≤ L.length) (feeds : Feeds L n m wire) :
    Subscribed m ⟨some n, wire, L.drop j⟩

structure Replica.Tracks (s : Replica B) : Prop where
  published : Published L s.authority
  aligned : Aligned L s.mirror
  subscribed : ∀ t ∈ s.sub, Subscribed L s.mirror t

variable {L} {L' us vs : List ViewUpdate} {n n' : Nat} {m : ViewMirror} {a : Authority B} {t : Subscription}

theorem Aligned.append (h : Aligned L m) : Aligned (L ++ vs) m where
  le := by
    rw [length_append]
    exact Nat.le_add_right_of_le h.le
  view nonzero := (h.view nonzero).trans (viewAt_append h.le).symm

theorem Feeds.trans (h : Feeds L n m us) (grows : ∀ m, Aligned L m → Aligned L' m)
    (more : ∀ m, m.lastSeq = n → m.view = viewAt L n → Feeds L' n' m vs) : Feeds L' n' m (us ++ vs) := by
  induction us generalizing m with
  | nil => exact more m h.1 h.2
  | cons u us ih =>
    obtain ⟨m', applied, aligned, rest⟩ := h
    exact ⟨m', applied, grows m' aligned, ih rest⟩

/-- The next update of the history is applied without a gap. -/
theorem feeds_next (h : Numbered L) (lt : n < L.length) (at_n : m.lastSeq = n) (view : m.view = viewAt L n) :
    Feeds L (n + 1) m [L[n]] := by
  obtain ⟨seq, some⟩ := h n lt
  have last := lastSeq_applyEvents { m with lastSeq := n + 1 } L[n].events
  have shown : (ViewMirror.applyEvents { m with lastSeq := n + 1 } L[n].events).view = viewAt L (n + 1) := by
    rw [view_applyEvents, viewAt_succ lt, ← view]
    rfl
  refine ⟨_, ?_, ⟨last.le.trans lt, fun _ => ?_⟩, last, shown⟩
  · unfold ViewMirror.apply
    rw [seq, if_neg n.succ_ne_zero, if_neg some, if_neg (by omega), if_neg (by omega)]
  · rw [shown, last]

theorem feeds_replay (h : Numbered L) (le : n ≤ L.length) (at_n : m.lastSeq = n) (view : m.view = viewAt L n) :
    Feeds L L.length m (L.drop n) := by
  induction le using Nat.decreasingInduction generalizing m with
  | self =>
    rw [drop_length]
    exact ⟨at_n, view⟩
  | of_succ n lt ih =>
    rw [drop_eq_getElem_cons lt]
    exact (feeds_next h lt at_n view).trans (fun _ => id) fun _ => ih

namespace Published

variable (h : Published L a)
include h

theorem lastSeq : a.viewLog.lastSeq = L.length := by
  rw [ViewLog.lastSeq, h.next]
  rfl

theorem replayAfter (le : n ≤ L.length) :
    a.viewLog.replayAfter n = none ∨ a.viewLog.replayAfter n = some (L.drop n) := by
  obtain ⟨k, fits, kept⟩ := h.kept
  have floor : a.viewLog.floor = k + 1 := by
    unfold ViewLog.floor
    rw [kept, h.next, head?_drop]
    rcases Nat.lt_or_eq_of_le fits with lt | rfl
    · rw [getElem?_eq_getElem lt]
      exact (h.numbered k lt).1
    · rw [getElem?_length]
      rfl
  unfold ViewLog.replayAfter
  rw [floor, kept]
  split
  next => exact .inl rfl
  split
  next => exact .inl rfl
  next held => exact .inr (congrArg some (h.numbered.filter_drop (by omega) le))

theorem feeds_snapshot (m : ViewMirror) : Feeds L L.length m a.snapshotWithAnchor.1 := by
  obtain ⟨m', applied, zero, view⟩ := a.view_snapshot h.keyed m
  refine ⟨m', applied, ⟨zero.le.trans (Nat.zero_le _), absurd zero⟩, ?_⟩
  rw [h.lastSeq, anchorUpdate]
  split
  next pos =>
    refine ⟨{ m' with lastSeq := L.length }, ?_, ⟨le_rfl, fun _ => view.trans h.view⟩, rfl, view.trans h.view⟩
    unfold ViewMirror.apply
    rw [if_neg (by dsimp only; omega), if_pos rfl, if_pos (by dsimp only; omega)]
  next none =>
    have empty : L.length = 0 := by omega
    exact ⟨zero.trans empty.symm, view.trans h.view⟩

theorem subscribeView (aligned : Aligned L m) :
    Feeds L L.length m (a.subscribeView m.lastSeq).1 ∧ (a.subscribeView m.lastSeq).2 = L.length := by
  unfold Authority.subscribeView
  by_cases zero : m.lastSeq = 0
  · rw [if_pos zero]
    exact ⟨h.feeds_snapshot m, h.lastSeq⟩
  rw [if_neg zero]
  rcases h.replayAfter aligned.le with none | replayed
  · rw [none]
    exact ⟨h.feeds_snapshot m, h.lastSeq⟩
  rw [replayed]
  refine ⟨feeds_replay h.numbered aligned.le rfl (aligned.view zero), ?_⟩
  dsimp only
  rw [getLast?_drop]
  split
  next all => exact aligned.le.antisymm all
  next some =>
    have last := (h.numbered (L.length - 1) (by omega)).1
    rw [getLast?_eq_getElem?, getElem?_eq_getElem (by omega)]
    exact last.trans (by omega)

/-- A call publishes its events as one update, if it has any. -/
theorem commit {b : Authority B} (keyed : b.Keyed) (log : b.viewLog = a.viewLog)
    (view : a.view.applyEvents b.pendingViewEvents = b.view) :
    Published (L ++ b.commitViewEvents.2.toList) b.commitViewEvents.1 := by
  unfold commitViewEvents
  by_cases none : b.pendingViewEvents = []
  · rw [if_pos none, Option.toList_none, append_nil]
    refine ⟨keyed, none, h.numbered, ?_, log ▸ h.next, log ▸ h.kept⟩
    rw [← view, none]
    exact h.view
  rw [if_neg none, log]
  obtain ⟨k, fits, updates⟩ := h.kept
  let u := (a.viewLog.commit b.pendingViewEvents).1
  have all : a.viewLog.updates ++ [u] = (L ++ [u]).drop k := by
    rw [drop_append_of_le_length fits, updates]
  refine ⟨keyed, rfl, h.numbered.concat h.next none, ?_, ?_, k + ((a.viewLog.updates ++ [u]).length - a.viewLog.cap), ?_, ?_⟩
  · have last := viewAt_succ (L := L ++ [u]) (n := L.length) (by simp)
    rw [viewAt_append le_rfl, ← h.view, getElem_concat_length rfl] at last
    exact view.symm.trans (last.symm.trans (by simp [u]))
  · exact (congrArg (· + 1) h.next).trans (by simp)
  · rw [all, length_drop]
    simp
    omega
  · rw [← drop_drop, Option.toList_some, ← all]
    rfl

theorem write (hB : B.Lawful) {op : Op} (kept : op.replaces = false)
    (exact : ∀ ids, op = .discardBlocks ids → ¬a.Echoes ids) :
    Published (L ++ (a.step op).commitViewEvents.2.toList) (a.step op).commitViewEvents.1 := by
  have reports : a.Reports (a.step op) := by
    by_cases discards : ∃ ids, op = .discardBlocks ids
    · obtain ⟨ids, rfl⟩ := discards
      obtain ⟨es, pending, agrees⟩ := discardBlocks_agrees ids a a.view (fun _ _ => rfl) fun k zero =>
        view_of_kind_zero h.keyed zero
      exact ⟨es, pending, agrees.mpr ⟨rfl, exact ids rfl⟩⟩
    · exact step_reports hB h.keyed kept fun ids same => discards ⟨ids, same⟩
  obtain ⟨es, pending, view⟩ := reports
  rw [h.pending, nil_append] at pending
  exact h.commit (step_keyed hB h.keyed) (step_run a kept).viewLog (pending ▸ view)

end Published

namespace Subscribed

variable (h : Subscribed L m t)
include h

theorem append : Subscribed (L ++ vs) m { t with queue := t.queue ++ vs } := by
  have longer : L.length ≤ (L ++ vs).length := by simp
  cases h with
  | waiting fits =>
    rw [← drop_append_of_le_length fits]
    exact .waiting (fits.trans longer)
  | @running j n wire le fits feeds =>
    rw [← drop_append_of_le_length (le.trans fits)]
    refine .running le (fits.trans longer) (append_nil wire ▸ feeds.trans (fun _ => .append) fun _ at_n view => ?_)
    exact ⟨at_n, view.trans (viewAt_append fits).symm⟩

theorem read (published : Published L a) (aligned : Aligned L m) : Subscribed L m (t.read a m.lastSeq) := by
  obtain ⟨feeds, last⟩ := published.subscribeView aligned
  cases h with
  | waiting fits =>
    rw [Subscription.read, last]
    exact .running fits le_rfl feeds
  | running le fits feeds => exact .running le fits feeds

theorem forward (numbered : Numbered L) : Subscribed L m t.forward := by
  cases h with
  | waiting fits => exact .waiting fits
  | @running j n wire le fits feeds =>
    rcases Nat.lt_or_eq_of_le (le.trans fits) with lt | rfl
    · rw [drop_eq_getElem_cons lt]
      dsimp only [Subscription.forward]
      rw [(numbered j lt).1, if_neg j.succ_ne_zero]
      split
      next repeated => exact .running repeated fits feeds
      next fresh =>
        obtain rfl : j = n := by omega
        exact .running le_rfl lt (feeds.trans (fun _ => id) fun _ => feeds_next numbered lt)
    · have idle := running le fits feeds
      rw [drop_length] at idle ⊢
      exact idle

theorem lag (published : Published L a) : Subscribed L m (t.lag a n) := by
  cases h with
  | waiting fits => exact .waiting fits
  | @running j last wire le fits feeds =>
    have after := feeds.trans (fun _ => id) fun m _ _ => published.feeds_snapshot m
    dsimp only [Subscription.lag]
    rw [published.lastSeq, drop_drop]
    rcases Nat.le_total (j + n) L.length with some | none
    · exact .running some le_rfl after
    · rw [drop_eq_nil_of_le none, ← drop_length (l := L)]
      exact .running le_rfl le_rfl after

end Subscribed

namespace Replica

variable {s : Replica B}

theorem Tracks.step (hB : B.Lawful) (h : s.Tracks L) {act : ReplicaStep} (exact : s.Exact act) :
    ∃ L', (s.step act).Tracks L' := by
  obtain ⟨published, aligned, subscribed⟩ := h
  cases act with
  | write op =>
    refine ⟨_, published.write hB exact.1 exact.2, aligned.append, ?_⟩
    exact Option.forall_mem_map.mpr fun t sub => (subscribed t sub).append
  | subscribe =>
    refine ⟨L, published, aligned, ?_⟩
    rintro t ⟨⟩
    have idle := Subscribed.waiting (m := s.mirror) L.length.le_refl
    rwa [drop_length] at idle
  | read =>
    exact ⟨L, published, aligned, Option.forall_mem_map.mpr fun t sub => (subscribed t sub).read published aligned⟩
  | forward =>
    exact ⟨L, published, aligned, Option.forall_mem_map.mpr fun t sub => (subscribed t sub).forward published.numbered⟩
  | lag n =>
    exact ⟨L, published, aligned, Option.forall_mem_map.mpr fun t sub => (subscribed t sub).lag published⟩
  | receive =>
    refine ⟨L, ?_⟩
    change s.receive.Tracks L
    unfold receive
    split
    next last u wire queue sub =>
      rcases subscribed _ sub with _ | ⟨le, fits, m, applied, after, rest⟩
      rw [applied]
      refine ⟨published, after, ?_⟩
      rintro t ⟨⟩
      exact .running le fits rest
    next => exact ⟨published, aligned, subscribed⟩
  | disconnect => exact ⟨L, published, aligned, nofun⟩

/-- From an empty control plane and an empty mirror. -/
def Reachable (s : Replica B) : Prop :=
  Reach step (fun s => ∃ a, a.Initial ∧ s = ⟨a, .new, none⟩) Exact s

theorem Reachable.tracks (hB : B.Lawful) (run : s.Reachable) : ∃ L, s.Tracks L := by
  refine Reach.invariant (I := fun s => ∃ L, s.Tracks L) ?_ ?_ run
  · rintro _ ⟨a, ⟨cap, rfl⟩, rfl⟩
    refine ⟨[], ⟨fun key pk p found => ?_, rfl, nofun, funext fun k => ?_, rfl, 0, le_rfl, rfl⟩,
      ⟨le_rfl, fun nonzero => absurd rfl nonzero⟩, nofun⟩
    · simp [initial_pool? ⟨cap, rfl⟩] at found
    · rw [view_apply]
      rfl
  · rintro s act ⟨L, tracks⟩ exact
    exact tracks.step hB exact

/-- In every interleaving of calls, commits, reconnections and lagging the update that arrives next is applied without a
gap, and a mirror with nothing on its way shows what the authority holds. -/
theorem mirror_converges (hB : B.Lawful) (run : s.Reachable) {t : Subscription} (sub : s.sub = some t) :
    (∀ u ∈ t.wire.head?, ∃ m, s.mirror.apply u = .ok m) ∧
      (t.last ≠ none → t.wire = [] → t.queue = [] → s.mirror.view = s.authority.view) := by
  obtain ⟨L, published, aligned, subscribed⟩ := run.tracks hB
  cases subscribed t sub with
  | waiting fits => exact ⟨nofun, fun unread => absurd rfl unread⟩
  | @running j n wire le fits feeds =>
    constructor
    · intro u next
      obtain ⟨us, rfl⟩ := head?_eq_some_iff.mp next
      exact ⟨feeds.choose, feeds.choose_spec.1⟩
    · rintro - rfl drained
      have all : L.length ≤ j := drop_eq_nil_iff.mp drained
      obtain rfl : n = L.length := by omega
      exact feeds.2.trans published.view.symm

/-- The block is registered between the subscription and its read, and is on the channel and in the snapshot. -/
theorem mirror_converges_overlap :
    ∃ s : Replica sampleBackend, s.Reachable ∧ s.sub = some ⟨some 1, [], []⟩ ∧ s.mirror.view = s.authority.view := by
  let steps : List ReplicaStep := [.write (.registerModel (sampleModel 0 0)), .subscribe,
    .write (.register "n" [[1]] [sampleMeta 1]), .read, .forward, .receive, .receive]
  have run : (steps.foldl step ⟨.withInactiveCap sampleBackend 8, .new, none⟩).Reachable :=
    Reach.foldl (.start ⟨_, ⟨8, rfl⟩, rfl⟩) ⟨⟨rfl, nofun⟩, trivial, ⟨rfl, nofun⟩, trivial, trivial, trivial, trivial, trivial⟩
  exact ⟨_, run, rfl, (mirror_converges sampleBackend_lawful run rfl).2 nofun rfl rfl⟩

end Replica

end Steps

end LakeKv
