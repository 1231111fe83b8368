import LakeKv.AssocList
import LakeKv.EngineRules

namespace LakeKv

open EventLoop Function List

def EventLoop.held {α : Type} : EventLoop α → Option Nat
  | .finish .check r _ _ _ => some r
  | _ => none

def EventLoop.closing {α : Type} : EventLoop α → Option Nat
  | .finish .receipt r _ _ _ => some r
  | .finish .trim r _ _ _ => some r
  | .finish .drop r _ _ _ => some r
  | _ => none

def EventLoop.unswept {α : Type} : EventLoop α → List Nat
  | .sweep rest _ => rest
  | .finish _ _ _ _ (.sweep rest _) => rest
  | .resume (.sweep rest _) => rest
  | _ => []

/-- The life of a record: not yet made, in the table with its callback to come, in the queue, with a consumer, in
`_finish` before and after its tests, out of the table. -/
inductive Phase
  | absent
  | announced
  | enqueued
  | executing (c : Nat)
  | held
  | closing
  | gone
  deriving DecidableEq, Repr

namespace Phase

def live : Phase → Bool
  | announced => true
  | enqueued => true
  | executing _ => true
  | held => true
  | _ => false

def inTable : Phase → Bool
  | closing => true
  | p => p.live

end Phase

namespace TaskEngine

variable {α : Type} {cfg : EngineConfig} {intentId : α → String} {args : Nat → α} {s t : TaskEngine α}
  {φ : Nat → Phase}

def Announced (intentId : α → String) (args : Nat → α) (s : TaskEngine α) (id : String) : Prop :=
  (∃ i, s.submits i = .inserted ∧ intentId (args i) = id) ∨ ∃ a ∈ s.callbacks, intentId a = id

/-- The phases of the records, as the engine's own data have them. -/
structure Tracks (intentId : α → String) (args : Nat → α) (s : TaskEngine α) (φ : Nat → Phase) : Prop where
  absent : ∀ r, φ r = .absent ↔ s.next ≤ r
  enqueued : ∀ r, φ r = .enqueued ↔ r ∈ s.queue
  executing : ∀ r c, φ r = .executing c ↔ s.consumers c = .executing r
  held : ∀ r, φ r = .held ↔ s.loop.held = some r
  closing : ∀ r, φ r = .closing ↔ s.loop.closing = some r
  table : ∀ k r, (k, r) ∈ s.records ↔ (φ r).inTable = true ∧ intentId (s.heap r).args = k
  pending : ∀ r, φ r ≠ .absent → ((s.heap r).status = .pending ↔ (φ r).live = true)
  unqueued : ∀ r, φ r = .announced → (s.heap r).queued = false
  queued : ∀ r, φ r = .enqueued ∨ (∃ c, φ r = .executing c) → (s.heap r).queued = true
  announced : ∀ r, φ r = .announced → s.Announced intentId args (intentId (s.heap r).args)
  keys : (s.records.map Prod.fst).Nodup
  nodup : s.queue.Nodup
  unswept : ∀ r ∈ s.loop.unswept, r < s.next

theorem Tracks.frame (h : s.Tracks intentId args φ) (heap : t.heap = s.heap) (next : t.next = s.next)
    (records : t.records = s.records) (queue : t.queue = s.queue)
    (executing : ∀ c r, t.consumers c = .executing r ↔ s.consumers c = .executing r)
    (held : t.loop.held = s.loop.held) (closing : t.loop.closing = s.loop.closing)
    (unswept : ∀ r ∈ t.loop.unswept, r < s.next)
    (announced : ∀ r, φ r = .announced → s.Announced intentId args (intentId (s.heap r).args) →
      t.Announced intentId args (intentId (s.heap r).args)) : t.Tracks intentId args φ where
  absent r := by rw [next, h.absent]
  enqueued r := by rw [queue, h.enqueued]
  executing r c := by rw [executing, h.executing]
  held r := by rw [held, h.held]
  closing r := by rw [closing, h.closing]
  table k r := by rw [records, heap, h.table]
  pending r := by rw [heap]; exact h.pending r
  unqueued r := by rw [heap]; exact h.unqueued r
  queued r := by rw [heap]; exact h.queued r
  announced r hr := by rw [heap]; exact announced r hr (h.announced r hr)
  keys := records ▸ h.keys
  nodup := queue ▸ h.nodup
  unswept := next ▸ unswept

structure Moves (intentId : α → String) (args : Nat → α) (s t : TaskEngine α) (φ : Nat → Phase) (r : Nat)
    (p : Phase) : Prop where
  next : t.next = s.next
  present : φ r ≠ .absent ∧ p ≠ .absent
  queue : ∀ x, x ∈ t.queue ↔ (if x = r then p = .enqueued else x ∈ s.queue)
  nodup : t.queue.Nodup
  consumers : ∀ c x, t.consumers c = .executing x ↔ (if x = r then p = .executing c else s.consumers c = .executing x)
  held : ∀ x, t.loop.held = some x ↔ (if x = r then p = .held else s.loop.held = some x)
  closing : ∀ x, t.loop.closing = some x ↔ (if x = r then p = .closing else s.loop.closing = some x)
  records : ∀ k x, (k, x) ∈ t.records ↔
    (if x = r then p.inTable = true ∧ intentId (s.heap r).args = k else (k, x) ∈ s.records)
  keys : (t.records.map Prod.fst).Nodup
  others : ∀ x, x ≠ r → t.heap x = s.heap x
  same_args : (t.heap r).args = (s.heap r).args
  pending : (t.heap r).status = .pending ↔ p.live = true
  queued : (p = .enqueued ∨ ∃ c, p = .executing c) → (t.heap r).queued = true
  waits : p ≠ .announced
  announced : ∀ x, x ≠ r → φ x = .announced → s.Announced intentId args (intentId (s.heap x).args) →
    t.Announced intentId args (intentId (s.heap x).args)
  unswept : ∀ x ∈ t.loop.unswept, x < s.next

variable {r : Nat} {a : α} {id : String} {p : Phase}

section

variable (h : s.Tracks intentId args φ)
include h

theorem Tracks.moves (m : Moves intentId args s t φ r p) : t.Tracks intentId args (update φ r p) := by
  obtain ⟨hnext, hpresent, hqueue, hnodup, hcons, hheld, hclosing, hrec, hkeys, hothers, hargs, hpend, hqueued, hwaits,
    hann, hunswept⟩ := m
  refine ⟨fun x => ?_, fun x => ?_, fun x c => ?_, fun x => ?_, fun x => ?_, fun k x => ?_, fun x hx => ?_,
    fun x hx => ?_, fun x hx => ?_, fun x hx => ?_, hkeys, hnodup, hnext ▸ hunswept⟩
  · grind [h.absent x, update_apply]
  · grind [h.enqueued x, update_apply]
  · grind [h.executing x c, update_apply]
  · grind [h.held x, update_apply]
  · grind [h.closing x, update_apply]
  · grind [h.table k x, update_apply]
  · grind [h.pending x, update_apply]
  · grind [h.unqueued x, update_apply]
  · grind [h.queued x, update_apply]
  · grind [h.announced x, update_apply]

theorem Tracks.lookup {k : String} :
    s.records.lookup k = some r ↔ (φ r).inTable = true ∧ intentId (s.heap r).args = k := by
  rw [AssocList.lookup_eq_some_iff h.keys, h.table]

theorem Tracks.free {k : String} (hk : s.records.lookup k = none) (r : Nat) :
    ¬((φ r).inTable = true ∧ intentId (s.heap r).args = k) := by
  rw [← h.lookup, hk]
  simp

end

structure Installs (intentId : α → String) (args : Nat → α) (s t : TaskEngine α) (a : α) (queued : Bool)
    (p : Phase) : Prop where
  free : s.records.lookup (intentId a) = none
  heap : t.heap = Function.update s.heap s.next ⟨a, .pending, "", queued⟩
  next : t.next = s.next + 1
  records : t.records = s.records ++ [(intentId a, s.next)]
  fresh : p = .announced ∧ queued = false ∨ p = .enqueued ∧ queued = true ∨ p = .held ∧ s.loop.held = none
  queue : t.queue = s.queue ++ (if p = .enqueued then [s.next] else [])
  consumers : t.consumers = s.consumers
  held : t.loop.held = if p = .held then some s.next else s.loop.held
  closing : t.loop.closing = s.loop.closing
  announced : p = .announced → t.Announced intentId args (intentId a)
  kept : ∀ id, s.Announced intentId args id → t.Announced intentId args id
  unswept : ∀ r ∈ t.loop.unswept, r < s.next

theorem Tracks.installs {queued : Bool} (h : s.Tracks intentId args φ)
    (m : Installs intentId args s t a queued p) : t.Tracks intentId args (update φ s.next p) := by
  obtain ⟨hfree, hheap, hnext, hrec, hfresh, hqueue, hcons, hheld, hclosing, hann, hkept, hunswept⟩ := m
  have hnew : φ s.next = .absent := (h.absent _).mpr (Nat.le_refl _)
  have hkey := AssocList.lookup_eq_none_iff.mp hfree
  have hcell : ∀ x, t.heap x = if x = s.next then ⟨a, .pending, "", queued⟩ else s.heap x := fun x => by
    rw [hheap, update_apply]
  refine ⟨fun x => ?_, fun x => ?_, fun x c => ?_, fun x => ?_, fun x => ?_, fun k x => ?_, fun x hx => ?_,
    fun x hx => ?_, fun x hx => ?_, fun x hx => ?_, ?_, ?_, fun x hx => ?_⟩
  · grind [h.absent x, update_apply]
  · grind [h.enqueued x, update_apply]
  · grind [h.executing x c, update_apply]
  · grind [h.held x, update_apply]
  · grind [h.closing x, update_apply]
  · grind [h.table k x, update_apply, Phase.inTable, Phase.live]
  · grind [h.pending x, update_apply, Phase.live]
  · grind [h.unqueued x, update_apply]
  · grind [h.queued x, update_apply]
  · grind [h.announced x, update_apply]
  · rw [hrec, map_append]
    exact (perm_append_singleton _ _).nodup_iff.mpr (nodup_cons.mpr ⟨hkey, h.keys⟩)
  · grind [h.nodup, h.enqueued s.next]
  · rw [hnext]
    exact Nat.lt_succ_of_lt (hunswept x hx)

def Tracked (intentId : α → String) (args : Nat → α) (s : TaskEngine α) : Prop :=
  ∃ φ, s.Tracks intentId args φ

theorem announced_setSubmit {i : Nat} {pc : SubmitIntentPc} (hi : s.submits i ≠ .inserted)
    (h : s.Announced intentId args id) : (s.setSubmit i pc).Announced intentId args id := by
  refine h.imp_left fun ⟨i', hi', hid⟩ => ⟨i', ?_, hid⟩
  have hne : i' ≠ i := fun heq => hi (heq ▸ hi')
  exact (update_of_ne hne _ _).trans hi'

theorem Tracked.submitIntent (h : s.Tracked intentId args) (i : Nat) :
    (s.submitIntent intentId args i).Tracked intentId args := by
  obtain ⟨φ, h⟩ := h
  have called : ∀ {pc : SubmitIntentPc}, s.submits i ≠ .inserted → (s.setSubmit i pc).Tracked intentId args :=
    fun hi => ⟨φ, h.frame rfl rfl rfl rfl (fun _ _ => Iff.rfl) rfl rfl h.unswept fun _ _ => announced_setSubmit hi⟩
  cases hpc : s.submits i with simp only [TaskEngine.submitIntent, hpc]
  | fresh =>
    exact called (by simp [hpc])
  | checked =>
    cases hslot : s.records.lookup (intentId (args i)) with
    | some r => exact called (by simp [hpc])
    | none =>
      refine ⟨_, h.installs (p := .announced) ⟨hslot, rfl, rfl, rfl, .inl ⟨rfl, rfl⟩, (append_nil _).symm, rfl, rfl, rfl,
        fun _ => ?_, fun id hid => ?_, h.unswept⟩⟩
      · exact .inl ⟨i, update_self _ _ _, rfl⟩
      · exact announced_setSubmit (by simp [install, setRecord, hpc]) hid
  | inserted =>
    refine ⟨φ, h.frame rfl rfl rfl rfl (fun _ _ => Iff.rfl) rfl rfl h.unswept fun r _ hr => ?_⟩
    -- The call that has inserted its record posts its callback.
    rcases hr with ⟨i', hi', hid⟩ | ⟨a, ha, hid⟩
    · by_cases heq : i' = i
      · exact .inr ⟨args i, mem_append_right _ mem_cons_self, heq ▸ hid⟩
      · exact .inl ⟨i', (update_of_ne heq _ _).trans hi', hid⟩
    · exact .inr ⟨a, mem_append_left _ ha, hid⟩
  | returned | raised =>
    exact ⟨φ, h⟩

variable {status : IntentStatus} {detail : String} {k : FinishThen} {rest : List α}

theorem Tracks.hold (h : s.Tracks intentId args φ) (present : (φ r).live = true) (free : s.loop.held = none)
    (unclosing : s.loop.closing = none) (loop : t.loop = .finish .check r status detail k) (next : t.next = s.next)
    (records : t.records = s.records) (queue : ∀ x, x ∈ t.queue ↔ x ∈ s.queue ∧ x ≠ r) (nodup : t.queue.Nodup)
    (consumers : ∀ c x, t.consumers c = .executing x ↔ s.consumers c = .executing x ∧ x ≠ r)
    (others : ∀ x, x ≠ r → t.heap x = s.heap x) (same_args : (t.heap r).args = (s.heap r).args)
    (status_eq : (t.heap r).status = (s.heap r).status)
    (announced : ∀ x, x ≠ r → φ x = .announced → s.Announced intentId args (intentId (s.heap x).args) →
      t.Announced intentId args (intentId (s.heap x).args))
    (unswept : ∀ x ∈ t.loop.unswept, x < s.next) : t.Tracks intentId args (update φ r .held) := by
  have hpresent : φ r ≠ .absent := fun habs => by simp [habs, Phase.live] at present
  refine h.moves ⟨next, ⟨hpresent, by simp⟩, fun x => ?_, nodup, fun c x => ?_, fun x => ?_, fun x => ?_, fun k x => ?_, ?_,
    others, same_args, ?_, by simp, by simp, announced, unswept⟩
  · grind
  · grind
  · grind [EventLoop.held]
  · grind [EventLoop.closing]
  · grind [h.table k x, Phase.inTable, Phase.live]
  · exact records ▸ h.keys
  · rw [status_eq, h.pending r hpresent, present]
    rfl

theorem mem_queue_tail {rest : List Nat} (hnodup : (r :: rest).Nodup) (x : Nat) : x ∈ rest ↔ x ∈ r :: rest ∧ x ≠ r := by
  have hr := (nodup_cons.mp hnodup).1
  grind

section

variable (h : s.Tracked intentId args)
include h

theorem Tracked.outcome (hidle : s.loop = .idle) (c : Nat) (o : PrefetchOutcome) :
    (s.outcome c o).Tracked intentId args := by
  obtain ⟨φ, h⟩ := h
  cases hc : s.consumers c with
  | executing r =>
    have hphase : φ r = .executing c := (h.executing r c).mpr hc
    have hqueue : r ∉ s.queue := fun hr => by simp [(h.enqueued r).mpr hr] at hphase
    have leaves : ∀ {t : TaskEngine α} {status detail k}, t.heap = s.heap → t.next = s.next → t.records = s.records →
        t.queue = s.queue → t.consumers = update s.consumers c .settling →
        t.loop = .finish .check r status detail k → t.submits = s.submits → t.callbacks = s.callbacks →
        t.loop.unswept = [] → t.Tracked intentId args := by
      intro t status detail k hheap hnext hrec hq hcons hloop hsub hcb huns
      refine ⟨_, h.hold (by rw [hphase]; rfl) (by rw [hidle]; rfl) (by rw [hidle]; rfl) hloop hnext hrec (fun x => ?_)
        (hq ▸ h.nodup) (fun c' x => ?_) (fun x _ => by rw [hheap]) (by rw [hheap]) (by rw [hheap]) (fun x _ _ hann => ?_)
        (by simp [huns])⟩
      · grind
      · have hx := h.executing x c'
        rw [hcons, update_apply]
        grind
      · rw [Announced, hsub, hcb]
        exact hann
    simp only [TaskEngine.outcome, hc]
    cases o with
    | success | expected | programming => exact leaves rfl rfl rfl rfl rfl rfl rfl rfl rfl
    | cancelled =>
      split_ifs
      · exact leaves rfl rfl rfl rfl rfl rfl rfl rfl rfl
      · exact ⟨φ, h⟩
  | waiting | settling | ended =>
    simp only [TaskEngine.outcome, hc]
    exact ⟨φ, h⟩

theorem Tracked.take (c : Nat) : (s.take c).Tracked intentId args := by
  obtain ⟨φ, h⟩ := h
  unfold TaskEngine.take
  split
  next r rest hc _ hq =>
    have hphase : φ r = .enqueued := (h.enqueued r).mpr (by simp [hq])
    have hnodup : (r :: rest).Nodup := hq ▸ h.nodup
    refine ⟨_, h.moves (r := r) (p := .executing c) ⟨rfl, by simp [hphase], fun x => ?_, (nodup_cons.mp hnodup).2,
      fun c' x => ?_, fun x => ?_, fun x => ?_, fun k x => ?_, h.keys, fun _ _ => rfl, rfl, ?_, fun _ => ?_, by simp,
      fun _ _ _ hann => hann, h.unswept⟩⟩
    · have := mem_queue_tail hnodup x
      grind [setConsumer]
    · have hx := h.executing x c'
      have hr := h.executing r c'
      simp only [setConsumer, update_apply]
      grind
    · grind [h.held x, setConsumer]
    · grind [h.closing x, setConsumer]
    · grind [h.table k x, setConsumer, Phase.inTable, Phase.live]
    · exact (h.pending r (by simp [hphase])).trans (by rw [hphase]; rfl)
    · exact h.queued r (.inl hphase)
  · exact ⟨φ, h⟩

theorem Tracked.setConsumer {c : Nat} {pc : ConsumerPc}
    (hs : ∀ r, s.consumers c ≠ .executing r) (ht : ∀ r, pc ≠ .executing r) :
    (s.setConsumer c pc).Tracked intentId args := by
  obtain ⟨φ, h⟩ := h
  refine ⟨φ, h.frame rfl rfl rfl rfl (fun c' r => ?_) rfl rfl h.unswept fun _ _ hann => hann⟩
  simp only [TaskEngine.setConsumer, update_apply]
  grind

theorem Tracked.dismiss (c : Nat) : (s.dismiss c).Tracked intentId args := by
  unfold TaskEngine.dismiss
  split
  next hc _ => exact h.setConsumer (by simp [hc]) (by simp)
  · exact h

theorem Tracked.goto (heap : t.heap = s.heap) (next : t.next = s.next)
    (records : t.records = s.records) (queue : t.queue = s.queue) (consumers : t.consumers = s.consumers)
    (submits : t.submits = s.submits) (callbacks : t.callbacks = s.callbacks) (held : t.loop.held = s.loop.held)
    (closing : t.loop.closing = s.loop.closing)
    (unswept : (∀ r ∈ s.loop.unswept, r < s.next) → ∀ r ∈ t.loop.unswept, r < s.next) : t.Tracked intentId args := by
  obtain ⟨φ, h⟩ := h
  refine ⟨φ, h.frame heap next records queue (by simp [consumers]) held closing (unswept h.unswept) fun _ _ hann => ?_⟩
  rw [Announced, submits, callbacks]
  exact hann

theorem Tracked.shutdown (hidle : s.loop = .idle) (j : Nat) : (s.shutdown cfg j).Tracked intentId args := by
  unfold TaskEngine.shutdown
  split
  · exact h.goto rfl rfl rfl rfl rfl rfl rfl rfl rfl id
  · split_ifs
    · exact h.goto rfl rfl rfl rfl rfl rfl rfl (by rw [hidle]; rfl) (by rw [hidle]; rfl) fun _ r hr => by cases hr
    · exact h
  · exact h
  · exact h

end

theorem announced_rest (hcb : s.callbacks = a :: rest)
    (submits : t.submits = s.submits) (callbacks : t.callbacks = rest) (hne : id ≠ intentId a)
    (h : s.Announced intentId args id) : t.Announced intentId args id := by
  rcases h with ⟨i, hi, hid⟩ | ⟨b, hb, hid⟩
  · exact .inl ⟨i, by rw [submits]; exact hi, hid⟩
  rw [hcb, mem_cons] at hb
  rcases hb with rfl | hb
  · exact absurd hid.symm hne
  · exact .inr ⟨b, callbacks ▸ hb, hid⟩

section

variable (h : s.Tracks intentId args φ)
include h

theorem Tracks.other_id {k : String} {r x : Nat} (hr : s.records.lookup k = some r)
    (hx : (φ x).inTable = true) (hne : x ≠ r) : intentId (s.heap x).args ≠ k := by
  intro heq
  have hx' := h.lookup.mpr ⟨hx, heq⟩
  exact hne (Option.some.inj (hx'.symm.trans hr))

theorem Tracks.phase_announced (hr : φ r ≠ .absent)
    (pending : (s.heap r).status = .pending) (queued : (s.heap r).queued = false) (free : s.loop.held = none) :
    φ r = .announced := by
  have hlive := (h.pending r hr).mp pending
  have hheld := h.held r
  have hqueued := h.queued r
  cases hp : φ r <;> simp_all [Phase.live]

theorem Tracked.putNowait (hidle : s.loop = .idle)
    (hcb : s.callbacks = a :: rest) (hr : s.records.lookup (intentId a) = some r) (hphase : φ r = .announced) :
    (TaskEngine.putNowait cfg ({ s with callbacks := rest }.setRecord r { s.heap r with queued := true }) r).Tracked
      intentId args := by
  have hann : ∀ {t : TaskEngine α} x, t.submits = s.submits → t.callbacks = rest → x ≠ r → φ x = .announced →
      s.Announced intentId args (intentId (s.heap x).args) → t.Announced intentId args (intentId (s.heap x).args) :=
    fun x hsub hcall hne hx => announced_rest hcb hsub hcall (h.other_id hr (by rw [hx]; rfl) hne)
  have hqueue : r ∉ s.queue := fun hmem => by simp [(h.enqueued r).mpr hmem] at hphase
  unfold TaskEngine.putNowait
  split_ifs
  · refine ⟨_, h.hold (by rw [hphase]; rfl) (by rw [hidle]; rfl) (by rw [hidle]; rfl) rfl rfl rfl (fun x => ?_) h.nodup
      (fun c x => ?_) (fun x hne => update_of_ne hne _ _) ?_ ?_ (fun x hne hx => hann x rfl rfl hne hx)
      fun _ hx => by cases hx⟩
    · grind [setRecord]
    · grind [h.executing x c, setRecord]
    · simp [setRecord]
    · simp [setRecord]
  · refine ⟨_, h.moves (r := r) (p := .enqueued) ⟨rfl, by simp [hphase], fun x => ?_, ?_, fun c x => ?_, fun x => ?_,
      fun x => ?_, fun k x => ?_, h.keys, fun x hne => update_of_ne hne _ _, ?_, ?_, fun _ => ?_, by simp,
      fun x hne hx => hann x rfl rfl hne hx, fun _ hx => by cases hx⟩⟩
    · grind [setRecord]
    · exact (perm_append_singleton _ _).nodup_iff.mpr (nodup_cons.mpr ⟨hqueue, h.nodup⟩)
    · grind [h.executing x c, setRecord]
    · grind [h.held x, setRecord, held]
    · grind [h.closing x, setRecord, closing]
    · grind [h.table k x, setRecord, Phase.inTable, Phase.live]
    · simp [setRecord]
    · have := h.pending r (by simp [hphase])
      simp_all [setRecord, Phase.live]
    · simp [setRecord]

end

theorem Tracked.admitIntent (h : s.Tracked intentId args) (hidle : s.loop = .idle)
    (hcb : s.callbacks = a :: rest) : ({ s with callbacks := rest }.admitIntent cfg intentId a).Tracked intentId args := by
  obtain ⟨φ, h⟩ := h
  have hheld : s.loop.held = none := by rw [hidle]; rfl
  have hclosing : s.loop.closing = none := by rw [hidle]; rfl
  -- The callback is gone: the records of its id must not need it.
  have drops : ∀ {t : TaskEngine α}, t.heap = s.heap → t.next = s.next → t.records = s.records → t.queue = s.queue →
      t.consumers = s.consumers → t.submits = s.submits → t.callbacks = rest → t.loop.held = none →
      t.loop.closing = none → t.loop.unswept = [] →
      (∀ r, φ r = .announced → intentId (s.heap r).args ≠ intentId a) → t.Tracked intentId args := by
    intro t hheap hnext hrec hq hcons hsub hcall hhold hclose huns hother
    exact ⟨φ, h.frame hheap hnext hrec hq (by simp [hcons]) (hhold.trans hheld.symm) (hclose.trans hclosing.symm)
      (by simp [huns]) fun r hr => announced_rest hcb hsub hcall (hother r hr)⟩
  have huns : s.loop.unswept = [] := by rw [hidle]; rfl
  simp only [TaskEngine.admitIntent]
  cases hslot : s.records.lookup (intentId a) with
  | none =>
    refine drops rfl rfl rfl rfl rfl rfl rfl rfl rfl rfl fun r hr heq => ?_
    exact h.free hslot r ⟨by rw [hr]; rfl, heq⟩
  | some r =>
    have hr := h.lookup.mp hslot
    have hpresent : φ r ≠ .absent := fun habs => by simp [habs, Phase.inTable, Phase.live] at hr
    have settled : φ r ≠ .announced → ∀ x, φ x = .announced → intentId (s.heap x).args ≠ intentId a := by
      intro hne x hx
      refine h.other_id hslot (by rw [hx]; rfl) fun heq => hne (heq ▸ hx)
    simp only
    split_ifs with _ hqueued hsettled
    · refine drops rfl rfl rfl rfl rfl rfl rfl hheld hclosing huns (settled fun hann => ?_)
      simp [h.unqueued r hann] at hqueued
    · have hlive : (s.heap r).status = .pending := by
        by_contra hne
        have hp := mt (h.pending r hpresent).mpr hne
        have hcl := h.closing r
        cases hp' : φ r <;> simp_all [Phase.inTable, Phase.live]
      exact Tracked.putNowait h hidle hcb hslot (h.phase_announced hpresent hlive (eq_false_of_ne_true hqueued) hheld)
    · refine drops rfl rfl rfl rfl rfl rfl rfl hheld hclosing huns (settled fun hann => ?_)
      rcases hsettled with hq | hst
      · simp [h.unqueued r hann] at hq
      · exact hst ((h.pending r hpresent).mpr (by rw [hann]; rfl))
    · rw [not_or, not_not] at hsettled
      have hphase := h.phase_announced hpresent hsettled.2 (eq_false_of_ne_true hsettled.1) hheld
      refine ⟨_, h.hold (by rw [hphase]; rfl) hheld hclosing rfl rfl rfl (fun x => ?_) h.nodup (fun c x => ?_)
        (fun _ _ => rfl) rfl rfl (fun x hne hx => ?_) fun _ hx => by cases hx⟩
      · grind [h.enqueued x]
      · grind [h.executing x c]
      · exact announced_rest hcb rfl rfl (h.other_id hslot (by rw [hx]; rfl) hne)

theorem Tracked.admitMissing (h : s.Tracked intentId args) (hloop : s.loop = .admitMissing a) :
    (s.admitMissing cfg intentId a).Tracked intentId args := by
  obtain ⟨φ, h⟩ := h
  have hheld : s.loop.held = none := by rw [hloop]; rfl
  have hclosing : s.loop.closing = none := by rw [hloop]; rfl
  have holds : ∀ {queued status detail}, s.records.lookup (intentId a) = none →
      ({ s.install intentId a queued with loop := .finish .check s.next status detail .callback } :
        TaskEngine α).Tracked intentId args := fun hslot =>
    ⟨_, h.installs (p := .held) ⟨hslot, rfl, rfl, rfl, .inr (.inr ⟨rfl, hheld⟩), (append_nil _).symm, rfl, rfl,
      hclosing.symm, by simp, fun _ hid => hid, fun _ hx => by cases hx⟩⟩
  unfold TaskEngine.admitMissing
  cases hslot : s.records.lookup (intentId a) with
  | some r =>
    exact Tracked.goto ⟨φ, h⟩ rfl rfl rfl rfl rfl rfl rfl hheld.symm hclosing.symm fun _ r hr => by cases hr
  | none =>
    simp only
    split_ifs
    · unfold TaskEngine.putNowait
      split_ifs
      · exact holds hslot
      · exact ⟨_, h.installs (p := .enqueued) ⟨hslot, rfl, rfl, rfl, .inr (.inl ⟨rfl, rfl⟩), rfl, rfl, hheld.symm,
          hclosing.symm, by simp, fun _ hid => hid, fun _ hx => by cases hx⟩⟩
    · exact holds hslot

theorem Tracks.settle
    (h : s.Tracks intentId args φ) (hloop : s.loop = .finish .check r status detail k) (hstatus : status ≠ .pending) :
    ({ s.setRecord r { s.heap r with status := status, detail := detail } with
      loop := .finish .receipt r status detail k } : TaskEngine α).Tracks intentId args (update φ r .closing) := by
  have hphase : φ r = .held := (h.held r).mpr (by rw [hloop]; rfl)
  refine h.moves ⟨rfl, by simp [hphase], fun x => ?_, h.nodup, fun c x => ?_, fun x => ?_, fun x => ?_, fun k' x => ?_,
    h.keys, fun x hne => update_of_ne hne _ _, ?_, ?_, by simp, by simp, fun _ _ _ hann => hann, ?_⟩
  · grind [h.enqueued r, setRecord]
  · grind [h.executing r c, setRecord]
  · grind [EventLoop.held]
  · grind [EventLoop.closing]
  · grind [h.table k' x, setRecord, Phase.inTable, Phase.live]
  · simp [setRecord]
  · simp [setRecord, hstatus, Phase.live]
  · have := h.unswept
    rw [hloop] at this
    cases k <;> exact this

theorem Tracks.drop (h : s.Tracks intentId args φ) (hloop : s.loop = .finish .drop r status detail k) :
    ({ s with records := s.records.filter fun p => p.1 ≠ intentId (s.heap r).args, loop := .resume k } :
      TaskEngine α).Tracks intentId args (update φ r .gone) := by
  have hphase : φ r = .closing := (h.closing r).mpr (by rw [hloop]; rfl)
  have hslot : s.records.lookup (intentId (s.heap r).args) = some r := h.lookup.mpr ⟨by rw [hphase]; rfl, rfl⟩
  have hpending := h.pending r (by simp [hphase])
  refine h.moves ⟨rfl, by simp [hphase], fun x => ?_, h.nodup, fun c x => ?_, fun x => ?_, fun x => ?_, fun k' x => ?_,
    h.keys.sublist (filter_sublist.map Prod.fst), fun _ _ => rfl, rfl, ?_, by simp, by simp,
    fun _ _ _ hann => hann, ?_⟩
  · grind [h.enqueued r]
  · grind [h.executing r c]
  · grind [EventLoop.held]
  · grind [EventLoop.closing]
  · have hx := h.table k' x
    have hother := fun hin hne => h.other_id hslot (x := x) hin hne
    simp only [mem_filter, decide_eq_true_eq]
    grind [Phase.inTable, Phase.live]
  · simpa [hphase, Phase.live] using hpending
  · have := h.unswept
    rw [hloop] at this
    cases k <;> exact this

variable (h : s.Tracked intentId args)
include h

theorem Tracked.finish {stage : FinishStage}
    (hloop : s.loop = .finish stage r status detail k) (hstatus : status ≠ .pending) :
    (s.finish cfg intentId stage r status detail k).Tracked intentId args := by
  have unswept : ∀ {stage' : FinishStage}, (EventLoop.finish stage' r status detail k : EventLoop α).unswept =
      s.loop.unswept := by
    intro stage'
    rw [hloop]
    cases k <;> rfl
  have goes : ∀ {t : TaskEngine α} {stage' : FinishStage}, t.heap = s.heap → t.next = s.next → t.records = s.records →
      t.queue = s.queue → t.consumers = s.consumers → t.submits = s.submits → t.callbacks = s.callbacks →
      t.loop = .finish stage' r status detail k → stage ≠ .check → stage' ≠ .check → t.Tracked intentId args := by
    intro t stage' hheap hnext hrec hq hcons hsub hcb hl hstage hstage'
    refine h.goto hheap hnext hrec hq hcons hsub hcb ?_ ?_ fun hs => by rw [hl, unswept]; exact hs
    · rw [hl, hloop]
      cases stage <;> cases stage' <;> first | rfl | exact absurd rfl hstage | exact absurd rfl hstage'
    · rw [hl, hloop]
      cases stage <;> cases stage' <;> first | rfl | exact absurd rfl hstage | exact absurd rfl hstage'
  cases stage with
  | check =>
    obtain ⟨φ, h⟩ := h
    have hphase : φ r = .held := (h.held r).mpr (by rw [hloop]; rfl)
    have hpass : s.records.lookup (intentId (s.heap r).args) = some r ∧ (s.heap r).status = .pending :=
      ⟨h.lookup.mpr ⟨by rw [hphase]; rfl, rfl⟩, (h.pending r (by simp [hphase])).mpr (by rw [hphase]; rfl)⟩
    simp only [TaskEngine.finish, if_pos hpass]
    exact ⟨_, h.settle hloop hstatus⟩
  | receipt => exact goes rfl rfl rfl rfl rfl rfl rfl rfl (by simp) (by simp)
  | trim =>
    simp only [TaskEngine.finish]
    split_ifs
    · exact goes rfl rfl rfl rfl rfl rfl rfl hloop (by simp) (by simp)
    · exact goes rfl rfl rfl rfl rfl rfl rfl rfl (by simp) (by simp)
  | drop =>
    obtain ⟨φ, h⟩ := h
    exact ⟨_, h.drop hloop⟩

theorem Tracked.resume (ho : s.Ruled cfg) (hloop : s.loop = .resume k) : (s.resume cfg k).Tracked intentId args := by
  have goes : ∀ {t : TaskEngine α}, t.heap = s.heap → t.next = s.next → t.records = s.records → t.queue = s.queue →
      t.consumers = s.consumers → t.submits = s.submits → t.callbacks = s.callbacks → t.loop.held = none →
      t.loop.closing = none → (∀ r ∈ t.loop.unswept, r ∈ s.loop.unswept) → t.Tracked intentId args := by
    intro t hheap hnext hrec hq hcons hsub hcb hheld hclosing huns
    refine h.goto hheap hnext hrec hq hcons hsub hcb ?_ ?_ fun hs r hr => hs r (huns r hr)
    · rw [hheld, hloop]
      rfl
    · rw [hclosing, hloop]
      rfl
  have own : ∀ c, k.owner = some c → ∀ r, s.consumers c ≠ .executing r := by
    intro c hk r
    rw [(ho.owner c).mpr (by rw [hloop]; exact hk)]
    simp
  have idles : ∀ {errors c : Nat} {pc : ConsumerPc}, k.owner = some c → (∀ r, pc ≠ .executing r) →
      ({ s with programmingErrors := errors, loop := .idle }.setConsumer c pc).Tracked intentId args := by
    intro errors c pc hk hpc
    have hidle : ({ s with programmingErrors := errors, loop := .idle } : TaskEngine α).Tracked intentId args :=
      goes rfl rfl rfl rfl rfl rfl rfl rfl rfl fun _ hr => by cases hr
    exact hidle.setConsumer (own c hk) hpc
  cases k with
  | callback => exact goes rfl rfl rfl rfl rfl rfl rfl rfl rfl fun _ hr => by cases hr
  | succeeded | failed | cancelled => exact idles rfl (by simp)
  | blamed c =>
    simp only [TaskEngine.resume]
    split_ifs
    · exact goes rfl rfl rfl rfl rfl rfl rfl rfl rfl fun _ hr => by cases hr
    · exact idles rfl (by simp)
  | drain k => exact goes rfl rfl rfl rfl rfl rfl rfl rfl rfl fun _ hr => by cases hr
  | sweep rest j => exact goes rfl rfl rfl rfl rfl rfl rfl rfl rfl fun _ hr => by rw [hloop]; exact hr

theorem Tracked.failNeverStarted {k : DrainThen} (ho : s.Ruled cfg)
    (hloop : s.loop = .drain k) : (s.failNeverStarted k).Tracked intentId args := by
  have hheld : s.loop.held = none := by rw [hloop]; rfl
  have hclosing : s.loop.closing = none := by rw [hloop]; rfl
  unfold TaskEngine.failNeverStarted
  split
  next r rest hq =>
    obtain ⟨φ, h⟩ := h
    have hphase : φ r = .enqueued := (h.enqueued r).mpr (by simp [hq])
    have hnodup : (r :: rest).Nodup := hq ▸ h.nodup
    refine ⟨_, h.hold (by rw [hphase]; rfl) hheld hclosing rfl rfl rfl (fun x => ?_) (nodup_cons.mp hnodup).2
      (fun c x => ?_) (fun _ _ => rfl) rfl rfl (fun _ _ _ hann => hann) fun _ hx => by cases hx⟩
    · rw [hq]
      exact mem_queue_tail hnodup x
    · grind [h.executing x c]
  split
  next c =>
    have hidle : ({ s with loop := .idle } : TaskEngine α).Tracked intentId args :=
      h.goto rfl rfl rfl rfl rfl rfl rfl hheld.symm hclosing.symm fun _ r hr => by cases hr
    have hown : s.consumers c = .settling := (ho.owner c).mpr (by rw [hloop]; rfl)
    exact hidle.setConsumer (fun r => by simp [hown]) (by simp)
  next j =>
    obtain ⟨φ, h⟩ := h
    refine Tracked.goto ⟨φ, h⟩ rfl rfl rfl rfl rfl rfl rfl hheld.symm hclosing.symm fun _ r hr => ?_
    obtain ⟨p, hp, rfl⟩ := mem_map.mp hr
    have hin := ((h.table p.1 p.2).mp hp).1
    by_contra hge
    simp [(h.absent p.2).mpr (Nat.le_of_not_lt hge), Phase.inTable, Phase.live] at hin

theorem Tracked.sweep {rest : List Nat} {j : Nat} (hloop : s.loop = .sweep rest j) :
    (s.sweep rest j).Tracked intentId args := by
  have hheld : s.loop.held = none := by rw [hloop]; rfl
  have hclosing : s.loop.closing = none := by rw [hloop]; rfl
  cases rest with
  | nil => exact h.goto rfl rfl rfl rfl rfl rfl rfl hheld.symm hclosing.symm fun _ r hr => by cases hr
  | cons r rest =>
    simp only [TaskEngine.sweep]
    have htail : ∀ x ∈ rest, x ∈ s.loop.unswept := fun x hx => by rw [hloop]; exact mem_cons_of_mem _ hx
    split_ifs with hr
    · obtain ⟨φ, h⟩ := h
      have hlt : r < s.next := h.unswept r (by rw [hloop]; exact mem_cons_self)
      have hpresent : φ r ≠ .absent := fun habs => absurd hlt (Nat.not_lt.mpr ((h.absent r).mp habs))
      have hphase := h.phase_announced hpresent hr.1 hr.2 hheld
      refine ⟨_, h.hold (by rw [hphase]; rfl) hheld hclosing rfl rfl rfl (fun x => ?_) h.nodup (fun c x => ?_)
        (fun _ _ => rfl) rfl rfl (fun _ _ _ hann => hann) fun x hx => h.unswept x (htail x hx)⟩
      · grind [h.enqueued x]
      · grind [h.executing x c]
    · exact h.goto rfl rfl rfl rfl rfl rfl rfl hheld.symm hclosing.symm fun hs x hx => hs x (htail x hx)

end TaskEngine

end LakeKv
