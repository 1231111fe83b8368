import LakeKv.QueueTurns

namespace LakeKv

open Bool List Option PqRequest

def Handling.reaped : Option Handling → Nat
  | some .settling => 1
  | some .delivering => 1
  | _ => 0

def Handling.examined : Option Handling → Nat
  | some .examining => 1
  | _ => 0

namespace RequestView

variable {v w : RequestView} {leaving : Prop}

/-- How often a request is in one of its places: in the queue, in flight, with `finishOne`, delivered, or dropped. -/
def places (v : RequestView) : Nat :=
  v.waits + v.flies + Handling.reaped v.handling + v.request.done.length + v.request.dropped.toNat

structure Accounted (v : RequestView) : Prop where
  once : v.places = v.known.toNat
  goroutines : v.flies = v.runs + v.ended + Handling.examined v.handling
  started : 0 < v.flies ∨ v.handling ≠ none → v.request.execCtx.isSome = true
  ended : 0 < v.ended ∨ v.handling ≠ none ∨ v.request.done ≠ [] → v.request.cause.isSome = true
  verdict : v.handling = some .delivering ∨ v.request.done ≠ [] → v.request.wasPreempted = false
  result : v.request.done ≠ [] → v.request.done = [v.request.err]
  dropped : v.request.dropped = true → v.request.submitter = .cancelled
  abandoned : v.request.abandoned = true → v.request.submitter = .cancelled

namespace Accounted

theorem single (acc : v.Accounted) : v.places ≤ 1 := by
  rw [acc.once]
  exact toNat_le v.known

theorem keptOf (zero : v.request.done.length + v.request.dropped.toNat = 0) :
    v.request.done = [] ∧ v.request.dropped = false := by
  constructor
  · apply eq_nil_of_length_eq_zero
    omega
  · apply toNat_eq_zero.mp
    omega

section

variable (acc : v.Accounted)
include acc

theorem free (quiet : 0 < v.waits + v.runs + v.ended ∨ v.known = false) : v.handling = none := by
  have once := acc.once
  have goroutines := acc.goroutines
  have known := toNat_le v.known
  have few := quiet.imp_right toNat_eq_zero.mpr
  unfold places at once
  cases handling : v.handling with
  | none => rfl
  | some what =>
    rw [handling] at once goroutines
    cases what <;> simp only [Handling.reaped, Handling.examined] at once goroutines <;> omega

/-- In the queue, in flight or with `finishOne`, a request is there once, and nothing is delivered or dropped. -/
theorem placed (here : 0 < v.waits + v.flies + Handling.reaped v.handling) :
    v.waits + v.flies + Handling.reaped v.handling = 1 ∧ v.request.done = [] ∧ v.request.dropped = false := by
  have single := acc.single
  unfold places at single
  exact ⟨by omega, keptOf (by omega)⟩

theorem waiting (waits : 0 < v.waits) : v.waits = 1 ∧ v.flies = 0 ∧ v.runs = 0 ∧ v.ended = 0 ∧
    v.handling = none ∧ v.request.done = [] ∧ v.request.dropped = false := by
  have goroutines := acc.goroutines
  obtain ⟨one, kept⟩ := acc.placed (by omega)
  exact ⟨by omega, by omega, by omega, by omega, acc.free (.inl (by omega)), kept⟩

theorem flying (busy : 0 < v.runs + v.ended) : v.waits = 0 ∧ v.flies = 1 ∧ v.runs + v.ended = 1 ∧
    v.handling = none ∧ v.request.done = [] ∧ v.request.dropped = false := by
  have goroutines := acc.goroutines
  obtain ⟨one, kept⟩ := acc.placed (by omega)
  exact ⟨by omega, by omega, by omega, acc.free (.inl (by omega)), kept⟩

theorem examining (handling : v.handling = some .examining) : v.waits = 0 ∧ v.flies = 1 ∧
    v.runs = 0 ∧ v.ended = 0 ∧ v.request.done = [] ∧ v.request.dropped = false := by
  have goroutines := acc.goroutines
  rw [handling, Handling.examined] at goroutines
  obtain ⟨one, kept⟩ := acc.placed (by omega)
  exact ⟨by omega, by omega, by omega, by omega, kept⟩

theorem reaped (handling : v.handling = some .settling ∨ v.handling = some .delivering) :
    v.waits = 0 ∧ v.flies = 0 ∧ v.runs = 0 ∧ v.ended = 0 ∧ v.request.done = [] ∧ v.request.dropped = false := by
  have goroutines := acc.goroutines
  have taken : Handling.reaped v.handling = 1 := by
    rcases handling with handling | handling <;> rw [handling] <;> rfl
  obtain ⟨one, kept⟩ := acc.placed (by omega)
  exact ⟨by omega, by omega, by omega, by omega, kept⟩

end

theorem untaken (once : v.places = v.known.toNat) (goroutines : v.flies = v.runs) (idle : v.ended = 0)
    (free : v.handling = none) (unsent : v.request.done = [])
    (started : 0 < v.flies → v.request.execCtx.isSome = true)
    (dropped : v.request.dropped = true → v.request.submitter = .cancelled)
    (abandoned : v.request.abandoned = true → v.request.submitter = .cancelled) : v.Accounted where
  once := once
  goroutines := by
    rw [free, idle]
    exact goroutines
  started here := started (here.resolve_right fun busy => busy free)
  ended := by
    rintro (ended | busy | sent)
    · exact absurd ended (by omega)
    · exact absurd free busy
    · exact absurd unsent sent
  verdict := by
    rintro (busy | sent)
    · cases free.symm.trans busy
    · exact absurd unsent sent
  result sent := absurd unsent sent
  dropped := dropped
  abandoned := abandoned

theorem changed (acc : v.Accounted) {r : PqRequest} (err : r.err = v.request.err) (done : r.done = v.request.done)
    (dropped : r.dropped = v.request.dropped) (started : r.execCtx.isSome = v.request.execCtx.isSome)
    (cause : v.request.cause.isSome = true → r.cause = v.request.cause)
    (lost : v.request.dropped = true → r.submitter = .cancelled)
    (left : r.abandoned = true → r.submitter = .cancelled) : Accounted { v with request := r } where
  once := by
    have once := acc.once
    unfold places at once ⊢
    dsimp only
    rw [done, dropped]
    exact once
  goroutines := acc.goroutines
  started here := started.trans (acc.started here)
  ended here := by
    dsimp only at here ⊢
    rw [done] at here
    have ended := acc.ended here
    rw [cause ended]
    exact ended
  verdict here := by
    dsimp only at here ⊢
    rw [done] at here
    have ended : v.request.cause.isSome = true := by
      refine acc.ended (.inr (here.imp_left ?_))
      intro handling
      rw [handling]
      exact some_ne_none _
    have final := acc.verdict here
    unfold wasPreempted at final ⊢
    rw [err, cause ended]
    exact final
  result here := by
    dsimp only at here ⊢
    rw [done] at here ⊢
    rw [err]
    exact acc.result here
  dropped here := lost (dropped.symm.trans here)
  abandoned := left

/-- Every turn keeps a request accounted for. -/
theorem turn (acc : v.Accounted) (turn : Turn leaving v w) : w.Accounted := by
  have once := acc.once
  have goroutines := acc.goroutines
  cases turn with
  | stays evolves =>
    exact acc.changed evolves.err evolves.done evolves.dropped evolves.started evolves.cause
      (fun here => evolves.gone.mpr (acc.dropped here))
      (fun here => evolves.gone.mpr (acc.abandoned (evolves.abandoned.symm.trans here)))
  | @enters r new here blank =>
    obtain ⟨unsent, kept, wanted, -⟩ := blank
    rw [new, toNat_false] at once
    unfold places at once
    refine untaken ?_ (by dsimp only; omega) (by dsimp only; omega) (acc.free (.inr new)) unsent ?_ ?_ ?_
    · unfold places
      dsimp only
      rw [unsent, kept, toNat_true, toNat_false, length_nil]
      omega
    · intro flies
      exact absurd flies (by dsimp only; omega)
    · intro gone
      dsimp only at gone
      rw [kept] at gone
      cases gone
    · intro gone
      dsimp only at gone
      rw [wanted] at gone
      cases gone
  | @starts waits waiting now stopped =>
    obtain ⟨one, flies, runs, ended, free, unsent, kept⟩ := acc.waiting (by omega)
    refine untaken ?_ (by dsimp only; omega) ended free unsent (fun _ => rfl) acc.dropped acc.abandoned
    unfold places at once ⊢
    dsimp only [start]
    omega
  | @returns runs running err =>
    obtain ⟨waits, flies, one, free, unsent, kept⟩ := acc.flying (by omega)
    have started := acc.started (.inl (by omega))
    refine ⟨once, ?_, ?_, ?_, ?_, ?_, acc.dropped, acc.abandoned⟩
    · dsimp only
      omega
    · exact fun _ => (isSome_cancel _ _).trans started
    · exact fun _ => (isSome_cause_cancel _ _).trans started
    · rintro (busy | sent)
      · exact absurd (free.symm.trans busy) (by simp)
      · exact absurd unsent sent
    · exact fun sent => absurd unsent sent
  | @received ended sends idle =>
    obtain ⟨waits, flies, one, free, unsent, kept⟩ := acc.flying (by omega)
    refine ⟨?_, ?_, ?_, ?_, ?_, acc.result, acc.dropped, acc.abandoned⟩
    · unfold places at once ⊢
      rw [idle] at once
      exact once
    · dsimp only [Handling.examined]
      rw [idle] at goroutines
      simp only [Handling.examined] at goroutines
      omega
    · exact fun _ => acc.started (.inl (by omega))
    · exact fun _ => acc.ended (.inl (by omega))
    · rintro (busy | sent)
      · cases busy
      · exact absurd unsent sent
  | forgotten handling abandoned =>
    obtain ⟨waits, flies, runs, ended, unsent, kept⟩ := acc.examining handling
    refine untaken ?_ (by dsimp only; omega) ended rfl unsent ?_ (fun _ => acc.abandoned abandoned) acc.abandoned
    · unfold places at once ⊢
      rw [handling, kept] at once
      simp only [Handling.reaped, toNat_false, toNat_true] at once ⊢
      omega
    · intro busy
      exact absurd busy (by dsimp only; omega)
  | examined handling wanted =>
    obtain ⟨waits, flies, runs, ended, unsent, kept⟩ := acc.examining handling
    have busy : v.handling ≠ none := handling ▸ Option.some_ne_none _
    refine ⟨?_, ?_, ?_, ?_, ?_, acc.result, acc.dropped, acc.abandoned⟩
    · unfold places at once ⊢
      rw [handling] at once
      simp only [Handling.reaped] at once ⊢
      omega
    · dsimp only [Handling.examined]
      omega
    · exact fun _ => acc.started (.inr busy)
    · exact fun _ => acc.ended (.inr (.inl busy))
    · rintro (busy | sent)
      · cases busy
      · exact absurd unsent sent
  | requeued handling preempted now =>
    obtain ⟨waits, flies, runs, ended, unsent, kept⟩ := acc.reaped (.inl handling)
    refine untaken ?_ (by dsimp only; omega) ended rfl unsent ?_ acc.dropped acc.abandoned
    · unfold places at once ⊢
      rw [handling] at once
      simp only [Handling.reaped] at once ⊢
      omega
    · intro busy
      exact absurd busy (by dsimp only; omega)
  | settled handling final =>
    have busy : v.handling ≠ none := handling ▸ Option.some_ne_none _
    refine ⟨?_, ?_, ?_, ?_, ?_, acc.result, acc.dropped, acc.abandoned⟩
    · unfold places at once ⊢
      rw [handling] at once
      exact once
    · rw [handling] at goroutines
      exact goroutines
    · exact fun _ => acc.started (.inr busy)
    · exact fun _ => acc.ended (.inr (.inl busy))
    · exact fun _ => final
  | delivered handling =>
    obtain ⟨waits, flies, runs, ended, unsent, kept⟩ := acc.reaped (.inr handling)
    have busy : v.handling ≠ none := handling ▸ Option.some_ne_none _
    refine ⟨?_, ?_, ?_, ?_, ?_, ?_, acc.dropped, acc.abandoned⟩
    · unfold places at once ⊢
      rw [handling] at once
      simp only [Handling.reaped, length_append, length_singleton] at once ⊢
      omega
    · dsimp only [Handling.examined]
      omega
    · rintro (busy | busy)
      · exact absurd busy (by dsimp only; omega)
      · exact absurd rfl busy
    · exact fun _ => acc.ended (.inr (.inl busy))
    · exact fun _ => acc.verdict (.inl handling)
    · intro _
      dsimp only
      rw [unsent]
      rfl
  | @withdrawn waits waiting left client =>
    obtain ⟨one, flies, runs, ended, free, unsent, kept⟩ := acc.waiting (by omega)
    refine ⟨?_, acc.goroutines, acc.started, acc.ended, acc.verdict, acc.result, fun _ => rfl, fun _ => rfl⟩
    unfold places at once ⊢
    rw [kept] at once
    simp only [withdraw, toNat_false, toNat_true] at once ⊢
    omega
  | abandons absent left client =>
    have left := v.request.abandoned_abandon
    exact acc.changed left.err left.done left.dropped left.started left.cause (fun _ => left.gone) (fun _ => left.gone)

end Accounted

end RequestView

theorem Turn.ran {leaving : Prop} {v w : RequestView} (turn : Turn leaving v w)
    (ran : v.request.execCtx.isSome = true → 0 < v.request.runs) :
    w.request.execCtx.isSome = true → 0 < w.request.runs := by
  intro started
  cases turn with
  | stays evolves =>
    have runs := evolves.runs
    have before := ran (evolves.started.symm.trans started)
    dsimp only
    omega
  | enters new here blank =>
    obtain ⟨_, _, _, none⟩ := blank
    dsimp only at started
    rw [none] at started
    cases started
  | starts => exact Nat.succ_pos _
  | returns running err => exact ran ((isSome_cancel _ _).symm.trans started)
  | abandons =>
    have left := v.request.abandoned_abandon
    have before := ran (left.started.symm.trans started)
    have runs := left.runs
    dsimp only
    omega
  | _ => exact ran started

theorem Turn.rank {leaving : Prop} {v w : RequestView} (turn : Turn leaving v w) (known : v.known = true) :
    w.known = true ∧ w.request.priority = v.request.priority ∧ w.request.seq = v.request.seq := by
  cases turn with
  | stays evolves => exact ⟨known, evolves.priority, evolves.seq⟩
  | enters new => exact absurd known (new ▸ false_ne_true)
  | abandons absent left client =>
    refine ⟨known, ?_, ?_⟩ <;> dsimp only [abandon] <;> split <;> rfl
  | _ => exact ⟨known, rfl, rfl⟩

theorem Turn.invariant {leaving : Prop} {I : RequestView → Prop} {v w : RequestView}
    (keep : ∀ v w, I v → Turn leaving v w → I w) (turns : Relation.ReflTransGen (Turn leaving) v w) (base : I v) :
    I w := by
  induction turns with
  | refl => exact base
  | tail _ turn ih => exact keep _ _ ih turn

theorem Turn.ranks {leaving : Prop} {v w : RequestView} (turns : Relation.ReflTransGen (Turn leaving) v w)
    (known : v.known = true) :
    w.known = true ∧ w.request.priority = v.request.priority ∧ w.request.seq = v.request.seq := by
  refine Turn.invariant (I := fun w => w.known = true ∧ w.request.priority = v.request.priority ∧
    w.request.seq = v.request.seq) ?_ turns ⟨known, rfl, rfl⟩
  intro u w kept turn
  obtain ⟨known', priority, seq⟩ := turn.rank kept.1
  exact ⟨known', priority.trans kept.2.1, seq.trans kept.2.2⟩

namespace PqScheduler

variable {st : PqScheduler} {id i : Nat} {now : Int}

theorem before_total (r r' : PqRequest) : ¬ r.before r' ∨ ¬ r'.before r := by
  unfold before
  omega

theorem before_trans {r r' r'' : PqRequest} (first : ¬ r'.before r) (second : ¬ r''.before r') : ¬ r''.before r := by
  unfold before at *
  omega

/-- The queue is in order: higher priorities first, and lower numbers among equal priorities. -/
def Sorted (st : PqScheduler) : Prop :=
  st.queue.Pairwise fun a b => ¬ (st.requests b).before (st.requests a)

theorem sorted_insertLocked (st : PqScheduler) (id : Nat) : (st.insertLocked id).Sorted := by
  have total : Std.Total fun a b => ¬ (st.requests b).before (st.requests a) :=
    ⟨fun a b => before_total (st.requests b) (st.requests a)⟩
  have trans : IsTrans Nat fun a b => ¬ (st.requests b).before (st.requests a) :=
    ⟨fun _ _ _ first second => before_trans first second⟩
  have order := pairwise_insertionSort (fun a b => ¬ (st.requests b).before (st.requests a)) (st.queue ++ [id])
  exact order

theorem Sorted.sublist {st' : PqScheduler} (sorted : st.Sorted) (sub : st'.queue.Sublist st.queue)
    (ranks : ∀ id ∈ st'.queue,
      (st'.requests id).priority = (st.requests id).priority ∧ (st'.requests id).seq = (st.requests id).seq) :
    st'.Sorted := by
  refine (List.Pairwise.sublist sub sorted).imp_of_mem ?_
  intro a b memA memB before
  unfold PqRequest.before at *
  rw [(ranks a memA).1, (ranks a memA).2, (ranks b memB).1, (ranks b memB).2]
  exact before

theorem startLoop_queue (now : Int) (n : Nat) (st : PqScheduler) : (startLoop now n st).queue.Sublist st.queue := by
  induction n generalizing st with
  | zero => exact List.Sublist.refl _
  | succ n ih =>
    unfold startLoop
    split
    · exact List.Sublist.refl _
    next id _ => exact (ih (st.start id now)).trans erase_sublist

theorem step_queue (st : PqScheduler) (op : PqOp) : (st.step op).Sorted ∨ (st.step op).queue.Sublist st.queue := by
  have same : ∀ {st' : PqScheduler}, st'.queue = st.queue → st'.Sorted ∨ st'.queue.Sublist st.queue := by
    intro st' eq
    rw [eq]
    exact .inr (List.Sublist.refl _)
  cases op with dsimp only [step]
  | submit priority model now => exact .inl (sorted_insertLocked _ _)
  | maybePreempt id order now =>
    split
    · refine same ?_
      have eq := maybePreempt_eq st (st.requests id).priority (st.requests id).model order now
      have queue := congrArg PqScheduler.queue eq
      exact queue
    · exact same rfl
  | cancel id =>
    dsimp only [cancelSubmit]
    split
    · split
      · exact .inr erase_sublist
      · exact same rfl
    · exact same rfl
  | setMaxInFlight | setBackpressure => exact same rfl
  | startEligible now =>
    split
    · exact .inr (startLoop_queue now st.queue.length st)
    · exact same rfl
  | examine =>
    dsimp only [examine]
    split
    · split <;> exact same rfl
    · exact same rfl
  | settle now =>
    dsimp only [settle]
    split
    next id _ =>
      split
      · have order := sorted_insertLocked
          ({ st with phase := .starting }.modify id fun r => { r with enqueuedAt := now }) id
        exact .inl order
      · exact same rfl
    · exact same rfl
  | stop => exact same rfl
  | _ =>
    split <;> exact same rfl

/-- One turn of the loop of `startEligible`: the first request that is not held back by backpressure is started, while
there is room. -/
def StartsFirst (now : Int) (st st' : PqScheduler) : Prop :=
  ∃ held id rest, st.queue = held ++ id :: rest ∧
    (∀ x ∈ held, st.underBackpressure (st.requests x).model now = true) ∧
    st.underBackpressure (st.requests id).model now = false ∧ st.inFlight.length < st.maxInFlight ∧
    st' = st.start id now

theorem startsFirst_of_eligible (found : st.eligible now = some id) : StartsFirst now st (st.start id now) := by
  unfold eligible at found
  split at found
  next room =>
    obtain ⟨free, held, rest, queue, before⟩ := find?_eq_some_iff_append.mp found
    refine ⟨held, id, rest, queue, ?_, ?_, room, rfl⟩
    · intro x mem
      simpa using before x mem
    · simpa using free
  · cases found

theorem startLoop_starts (now : Int) (n : Nat) (st : PqScheduler) :
    Relation.ReflTransGen (StartsFirst now) st (startLoop now n st) := by
  induction n generalizing st with
  | zero => exact .refl
  | succ n ih =>
    unfold startLoop
    split
    · exact .refl
    next id found => exact .head (startsFirst_of_eligible found) (ih (st.start id now))

theorem startLoop_ends (now : Int) (n : Nat) (st : PqScheduler) (enough : st.queue.length ≤ n) :
    (startLoop now n st).eligible now = none := by
  induction n generalizing st with
  | zero =>
    have empty : st.queue = [] := eq_nil_of_length_eq_zero (by omega)
    unfold startLoop eligible
    rw [empty]
    split <;> rfl
  | succ n ih =>
    unfold startLoop
    split
    next none => exact none
    next id found =>
      refine ih (st.start id now) ?_
      have mem := eligible_mem found
      have shorter : (st.queue.erase id).length = st.queue.length - 1 := length_erase_of_mem mem
      change (st.queue.erase id).length ≤ n
      omega

theorem startLoop_room (now : Int) (n : Nat) (st : PqScheduler) :
    (startLoop now n st).inFlight.length ≤ max st.inFlight.length st.maxInFlight := by
  induction n generalizing st with
  | zero => exact Nat.le_max_left _ _
  | succ n ih =>
    unfold startLoop
    split
    · exact Nat.le_max_left _ _
    next id found =>
      have room : st.inFlight.length < st.maxInFlight := by
        obtain ⟨_, _, _, _, _, _, room, _⟩ := startsFirst_of_eligible found
        exact room
      have later := ih (st.start id now)
      have flies : (st.start id now).inFlight.length = st.inFlight.length + 1 := length_append
      have cap : (st.start id now).maxInFlight = st.maxInFlight := rfl
      rw [flies, cap] at later
      omega

/-- The places of a request: it waits, it is in flight, `finishOne` has taken it, its result was sent, or it was
dropped because its client had gone. -/
def places (st : PqScheduler) (id : Nat) : List Bool :=
  [st.queue.contains id, st.inFlight.contains id, decide (st.phase = .settling id ∨ st.phase = .delivering id),
    !(st.requests id).done.isEmpty, (st.requests id).dropped]

/-- Requests are neither lost nor run or answered twice. -/
structure Conserved (st : PqScheduler) : Prop where
  place : ∀ id < st.submitted, (st.places id).count true = 1
  goroutines : (st.running ++ st.finished).Nodup
  delivered : ∀ id, (st.requests id).done.length ≤ 1 ∧ ∀ result ∈ (st.requests id).done,
    result = (st.requests id).err ∧ 0 < (st.requests id).runs ∧
      ((st.requests id).err = none ∨ (st.requests id).cause ≠ some .preempted)
  kept : ∀ id < st.submitted, (st.requests id).submitter ≠ .cancelled → (st.requests id).dropped = false
  sorted : st.Sorted

theorem handling_reaped (phase : RunPhase) (id : Nat) :
    Handling.reaped (phase.handling id) = (decide (phase = .settling id ∨ phase = .delivering id)).toNat := by
  unfold RunPhase.handling
  cases phase with
  | examining i =>
    dsimp only
    split <;> simp [Handling.reaped]
  | settling i =>
    by_cases same : i = id <;> simp [Handling.reaped, same]
  | delivering i =>
    by_cases same : i = id <;> simp [Handling.reaped, same]
  | _ => simp [Handling.reaped]

theorem count_of_le_one {ids : List Nat} (le : ids.count id ≤ 1) : (ids.contains id).toNat = ids.count id := by
  by_cases mem : id ∈ ids
  · have pos := count_pos_iff.mpr mem
    rw [contains_iff_mem.mpr mem, toNat_true]
    omega
  · have none : ids.contains id = false := eq_false_iff.mpr fun here => mem (contains_iff_mem.mp here)
    rw [none, count_eq_zero.mpr mem, toNat_false]

theorem count_cons_toNat (b : Bool) (bs : List Bool) : (b :: bs).count true = b.toNat + bs.count true := by
  rw [count_cons]
  cases b with
  | false => simp
  | true => simp [Nat.add_comm]

structure Kept (st : PqScheduler) : Prop where
  accounted : ∀ id, (st.view id).Accounted
  ran : ∀ id, (st.requests id).execCtx.isSome = true → 0 < (st.requests id).runs
  sorted : st.Sorted

theorem kept_new (maxInFlight bpTTL : Int) : (new maxInFlight bpTTL).Kept := by
  refine ⟨?_, ?_, List.Pairwise.nil⟩
  · intro id
    refine ⟨rfl, rfl, ?_, ?_, ?_, ?_, ?_, ?_⟩ <;> simp [view, new, blank, RunPhase.handling]
  · intro id started
    cases started

theorem Kept.known (kept : st.Kept) (mem : id ∈ st.queue) : (st.view id).known = true := by
  have once := (kept.accounted id).once
  have waits : 0 < (st.view id).waits := count_pos_iff.mpr mem
  unfold RequestView.places at once
  cases known : (st.view id).known with
  | true => rfl
  | false =>
    rw [known, toNat_false] at once
    omega

theorem Kept.step (kept : st.Kept) (op : PqOp) : (st.step op).Kept := by
  have turns := step_turns st op
  refine ⟨?_, ?_, ?_⟩
  · intro id
    exact Turn.invariant (fun _ _ acc turn => acc.turn turn) (turns id) (kept.accounted id)
  · intro id
    have ran := Turn.invariant (I := fun v => v.request.execCtx.isSome = true → 0 < v.request.runs)
      (fun _ _ ran turn => turn.ran ran) (turns id) (kept.ran id)
    exact ran
  · rcases step_queue st op with sorted | sub
    · exact sorted
    · refine kept.sorted.sublist sub ?_
      intro id mem
      have ranks := Turn.ranks (turns id) (kept.known (sub.subset mem))
      exact ranks.2

theorem started_of_cause {r : PqRequest} (ended : r.cause.isSome = true) : r.execCtx.isSome = true := by
  unfold cause at ended
  cases ctx : r.execCtx with
  | none =>
    rw [ctx] at ended
    cases ended
  | some => rfl

theorem Kept.conserved (kept : st.Kept) : st.Conserved := by
  have acc := kept.accounted
  refine ⟨?_, ?_, ?_, ?_, kept.sorted⟩
  · intro id known
    have once := (acc id).once
    have full : (st.view id).known = true := decide_eq_true known
    rw [full, toNat_true] at once
    unfold RequestView.places at once
    change st.queue.count id + st.inFlight.count id + Handling.reaped (st.phase.handling id) +
      (st.requests id).done.length + (st.requests id).dropped.toNat = 1 at once
    have waits : (st.queue.contains id).toNat = st.queue.count id := count_of_le_one (by omega)
    have flies : (st.inFlight.contains id).toNat = st.inFlight.count id := count_of_le_one (by omega)
    have sent : (!(st.requests id).done.isEmpty).toNat = (st.requests id).done.length := by
      cases done : (st.requests id).done with
      | nil => rfl
      | cons x xs =>
        rw [done, length_cons] at once
        have last : xs.length = 0 := by omega
        rw [length_cons, last]
        rfl
    unfold places
    simp only [count_cons_toNat, count_nil]
    rw [waits, flies, sent, ← handling_reaped]
    omega
  · refine nodup_iff_count_le_one.mpr ?_
    intro id
    have once := (acc id).single
    have goroutines := (acc id).goroutines
    unfold RequestView.places at once
    change st.inFlight.count id = st.running.count id + st.finished.count id + _ at goroutines
    change st.queue.count id + st.inFlight.count id + _ + _ + _ ≤ 1 at once
    rw [count_append]
    omega
  · intro id
    by_cases sent : (st.requests id).done = []
    · rw [sent]
      exact ⟨Nat.zero_le 1, fun _ mem => absurd mem not_mem_nil⟩
    have result := (acc id).result sent
    have verdict := (acc id).verdict (.inr sent)
    have ended := (acc id).ended (.inr (.inr sent))
    change (st.requests id).done = [(st.requests id).err] at result
    rw [result]
    refine ⟨le_refl 1, ?_⟩
    intro x mem
    refine ⟨List.mem_singleton.mp mem, kept.ran id (started_of_cause ended), ?_⟩
    change (st.requests id).wasPreempted = false at verdict
    unfold wasPreempted at verdict
    rcases and_eq_false_iff.mp verdict with nil | other
    · exact .inl (isNone_iff_eq_none.mp (by simpa using nil))
    · exact .inr (by simpa using other)
  · intro id _ present
    by_contra gone
    exact present ((acc id).dropped (not_eq_false _ ▸ gone))

/-- In every interleaving of the scheduler's steps requests are conserved, and whatever the time, `startEligible` starts
the first request that backpressure does not hold back, as long as there is room and no further. -/
theorem requests_conserved {maxInFlight bpTTL : Int}
    (run : Reach step (· = new maxInFlight bpTTL) (fun _ _ => True) st) :
    st.Conserved ∧ ∀ now, Relation.ReflTransGen (StartsFirst now) st (st.startEligible now) ∧
      (st.startEligible now).eligible now = none ∧
      (st.startEligible now).inFlight.length ≤ max st.inFlight.length st.maxInFlight := by
  have kept : st.Kept := by
    refine run.invariant ?_ ?_
    · rintro _ rfl
      exact kept_new maxInFlight bpTTL
    · intro st op kept _
      exact kept.step op
  refine ⟨kept.conserved, ?_⟩
  intro now
  exact ⟨startLoop_starts now st.queue.length st, startLoop_ends now st.queue.length st (le_refl _),
    startLoop_room now st.queue.length st⟩

/-- A run in which a request is preempted by another, put back, run again and answered. -/
def preemptedOnce : List PqOp :=
  [.submit 0 "m" 0, .maybePreempt 0 [] 0, .startEligible 0, .arm 0, .submit 5 "m" 1, .maybePreempt 1 [0] 1,
    .execReturns 0 (some .canceled), .reap 0, .examine, .settle 2, .startEligible 2, .arm 2, .execReturns 1 none, .reap 1,
    .examine, .settle 3, .deliver, .receive 1, .startEligible 3]

theorem requests_conserved_preemption :
    let st := preemptedOnce.foldl step (new 1 10)
    st.Conserved ∧ (st.requests 0).runs = 2 ∧ (st.requests 1).done = [none] := by
  have run : Reach step (· = new 1 10) (fun _ _ => True) (preemptedOnce.foldl step (new 1 10)) := by
    refine Reach.foldl (.start ?_) (Reach.allowed_true _ _)
    rfl
  exact ⟨(requests_conserved run).1, by decide +kernel, by decide +kernel⟩

end PqScheduler

end LakeKv
