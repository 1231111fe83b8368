import LakeKv.SegmentArena

namespace LakeKv

open Finmap List

structure LayerSlice where
  id : Option KvBlockId
  layerIdx : Nat
  offset : Nat
  length : Nat
  deriving DecidableEq, Repr

structure PublishRequest where
  requestId : String
  seq : Nat
  slices : List LayerSlice
  deriving DecidableEq, Repr

structure PublishAck where
  ok : Bool
  err : String
  deriving DecidableEq, Repr

structure PublishStream where
  lastSeq : Nat
  layers : Map (Flat × Nat) Nat
  seenSlices : Finset (Flat × Nat × Nat)

def publishScope (requestId : String) : String :=
  if requestId.isEmpty then "_" else requestId

namespace PublishStream

def new : PublishStream :=
  ⟨0, ∅, ∅⟩

/-- One turn of the loop of `publish`. The sum is a `u64`. -/
def count (st : PublishStream) (slice : LayerSlice) : PublishStream :=
  match slice.id with
  | none => st
  | some id =>
    if (id.blockHash, slice.layerIdx, slice.offset) ∈ st.seenSlices then st
    else
      { st with
        seenSlices := insert (id.blockHash, slice.layerIdx, slice.offset) st.seenSlices
        layers := st.layers.insert (id.blockHash, slice.layerIdx)
          (u64 ((st.layers.lookup (id.blockHash, slice.layerIdx)).getD 0 + slice.length)) }

def Fenced (st : PublishStream) (seq : Nat) : Prop :=
  0 < seq ∧ seq < st.lastSeq

instance (st : PublishStream) (seq : Nat) : Decidable (st.Fenced seq) :=
  inferInstanceAs (Decidable (_ ∧ _))

def accept (st : PublishStream) (req : PublishRequest) : PublishStream :=
  req.slices.foldl count { st with lastSeq := if st.lastSeq < req.seq then req.seq else st.lastSeq }

end PublishStream

structure TransferServer where
  publish : Map String PublishStream

namespace TransferServer

def stream (s : TransferServer) (scope : String) : PublishStream :=
  (s.publish.lookup scope).getD .new

/-- `publish`. How a string is printed with its quotes comes from outside. -/
def handlePublish (debug : String → String) (s : TransferServer) (req : PublishRequest) : TransferServer × PublishAck :=
  let scope := publishScope req.requestId
  let st := s.stream scope
  if st.Fenced req.seq then
    (⟨s.publish.insert scope st⟩, ⟨false, s!"Publish seq={req.seq} < last_seq={st.lastSeq} (overlap fence, request_id=" ++
      debug scope ++ ")"⟩)
  else (⟨s.publish.insert scope (st.accept req)⟩, ⟨true, ""⟩)

def publishedLayerBytes (s : TransferServer) (scope : String) (block : Flat) (layer : Nat) : Option Nat :=
  (s.publish.lookup scope).bind fun st => st.layers.lookup (block, layer)

def accepted (debug : String → String) (scope : String) : TransferServer → List PublishRequest → List PublishRequest
  | _, [] => []
  | s, req :: reqs =>
    let rest := accepted debug scope (s.handlePublish debug req).1 reqs
    if publishScope req.requestId = scope ∧ (s.handlePublish debug req).2.ok then req :: rest else rest

def run (debug : String → String) (s : TransferServer) (reqs : List PublishRequest) : TransferServer :=
  reqs.foldl (fun s req => (s.handlePublish debug req).1) s

end TransferServer

section Once

def LayerSlice.key (slice : LayerSlice) : Option (Flat × Nat × Nat) :=
  slice.id.map fun id => (id.blockHash, slice.layerIdx, slice.offset)

def keysOf (slices : List LayerSlice) : Finset (Flat × Nat × Nat) :=
  (slices.filterMap LayerSlice.key).toFinset

def lengthAt (slices : List LayerSlice) (key : Flat × Nat × Nat) : Nat :=
  ((slices.find? fun s => s.key = some key).map LayerSlice.length).getD 0

/-- The bytes of a layer of a block, with each distinct slice counted once. -/
def onceBytes (slices : List LayerSlice) (block : Flat) (layer : Nat) : Nat :=
  ∑ key ∈ (keysOf slices).filter (fun key => key.1 = block ∧ key.2.1 = layer), lengthAt slices key

variable {slices : List LayerSlice} {slice : LayerSlice} {key : Flat × Nat × Nat}

theorem mem_keysOf : key ∈ keysOf slices ↔ ∃ s ∈ slices, s.key = some key := by
  unfold keysOf
  rw [mem_toFinset, mem_filterMap]

theorem keysOf_concat (slices : List LayerSlice) (slice : LayerSlice) :
    keysOf (slices ++ [slice]) = keysOf slices ∪ slice.key.toFinset := by
  ext key
  simp only [mem_keysOf, Finset.mem_union, Option.mem_toFinset, Option.mem_def, mem_append, List.mem_singleton]
  constructor
  · rintro ⟨s, mem | rfl, same⟩
    · exact .inl ⟨s, mem, same⟩
    · exact .inr same
  · rintro (⟨s, mem, same⟩ | same)
    · exact ⟨s, .inl mem, same⟩
    · exact ⟨slice, .inr rfl, same⟩

theorem lengthAt_concat_of_mem (mem : key ∈ keysOf slices) (slice : LayerSlice) :
    lengthAt (slices ++ [slice]) key = lengthAt slices key := by
  obtain ⟨s, here, same⟩ := mem_keysOf.mp mem
  have found : (slices.find? fun s => decide (s.key = some key)).isSome = true :=
    find?_isSome.mpr ⟨s, here, decide_eq_true same⟩
  unfold lengthAt
  rw [find?_append, Option.or_of_isSome found]

theorem lengthAt_concat_of_not_mem (new : key ∉ keysOf slices) (same : slice.key = some key) :
    lengthAt (slices ++ [slice]) key = slice.length := by
  have none : (slices.find? fun s => decide (s.key = some key)) = none := by
    refine find?_eq_none.mpr ?_
    intro s mem here
    exact new (mem_keysOf.mpr ⟨s, mem, of_decide_eq_true here⟩)
  have found : ([slice].find? fun s => decide (s.key = some key)) = some slice := by simp [same]
  unfold lengthAt
  rw [find?_append, none, Option.none_or, found]
  rfl

theorem onceBytes_concat_of_old (old : ∀ key, slice.key = some key → key ∈ keysOf slices) (block : Flat) (layer : Nat) :
    onceBytes (slices ++ [slice]) block layer = onceBytes slices block layer := by
  have keys : keysOf (slices ++ [slice]) = keysOf slices := by
    rw [keysOf_concat, Finset.union_eq_left]
    intro key mem
    exact old key (Option.mem_toFinset.mp mem)
  unfold onceBytes
  rw [keys]
  refine Finset.sum_congr rfl ?_
  intro key mem
  exact lengthAt_concat_of_mem (Finset.mem_filter.mp mem).1 slice

theorem onceBytes_concat_of_new (same : slice.key = some key) (new : key ∉ keysOf slices) (block : Flat) (layer : Nat) :
    onceBytes (slices ++ [slice]) block layer =
      onceBytes slices block layer + if key.1 = block ∧ key.2.1 = layer then slice.length else 0 := by
  have keys : keysOf (slices ++ [slice]) = insert key (keysOf slices) := by
    rw [keysOf_concat, same, Option.toFinset_some, Finset.union_comm, Finset.insert_eq]
  have others : ∑ k ∈ (keysOf slices).filter (fun k => k.1 = block ∧ k.2.1 = layer), lengthAt (slices ++ [slice]) k =
      onceBytes slices block layer := by
    refine Finset.sum_congr rfl ?_
    intro k mem
    exact lengthAt_concat_of_mem (Finset.mem_filter.mp mem).1 slice
  rw [onceBytes, keys, Finset.filter_insert]
  split
  · have fresh : key ∉ (keysOf slices).filter (fun k => k.1 = block ∧ k.2.1 = layer) :=
      fun mem => new (Finset.mem_filter.mp mem).1
    rw [Finset.sum_insert fresh, lengthAt_concat_of_not_mem new same, others, Nat.add_comm]
  · rw [others, Nat.add_zero]

end Once

namespace PublishStream

variable {st : PublishStream} {slices : List LayerSlice} {slice : LayerSlice} {req : PublishRequest}

structure Counted (st : PublishStream) (slices : List LayerSlice) : Prop where
  seen : st.seenSlices = keysOf slices
  bytes : ∀ block layer, (st.layers.lookup (block, layer)).getD 0 = u64 (onceBytes slices block layer)

theorem counted_new : new.Counted [] :=
  ⟨rfl, fun _ _ => rfl⟩

theorem count_eq_of_old (old : ∀ key, slice.key = some key → key ∈ st.seenSlices) : st.count slice = st := by
  unfold count
  split
  · rfl
  next id here =>
    have key : slice.key = some (id.blockHash, slice.layerIdx, slice.offset) := by
      unfold LayerSlice.key
      rw [here]
      rfl
    exact if_pos (old _ key)

theorem count_of_new {id : KvBlockId} (here : slice.id = some id)
    (new : (id.blockHash, slice.layerIdx, slice.offset) ∉ st.seenSlices) : st.count slice = { st with
        seenSlices := insert (id.blockHash, slice.layerIdx, slice.offset) st.seenSlices
        layers := st.layers.insert (id.blockHash, slice.layerIdx)
          (u64 ((st.layers.lookup (id.blockHash, slice.layerIdx)).getD 0 + slice.length)) } := by
  unfold count
  rw [here]
  exact if_neg new

theorem Counted.count (counted : st.Counted slices) (slice : LayerSlice) :
    (st.count slice).Counted (slices ++ [slice]) := by
  by_cases old : ∀ key, slice.key = some key → key ∈ st.seenSlices
  · have known : ∀ key, slice.key = some key → key ∈ keysOf slices := by
      rw [← counted.seen]
      exact old
    rw [count_eq_of_old old]
    refine ⟨?_, ?_⟩
    · rw [counted.seen, keysOf_concat, eq_comm, Finset.union_eq_left]
      intro key mem
      exact known key (Option.mem_toFinset.mp mem)
    · intro block layer
      rw [onceBytes_concat_of_old known]
      exact counted.bytes block layer
  · obtain ⟨key, old⟩ := not_forall.mp old
    obtain ⟨same, new⟩ := Classical.not_imp.mp old
    obtain ⟨id, here, rfl⟩ := Option.map_eq_some_iff.mp same
    have fresh := new
    rw [counted.seen] at fresh
    rw [count_of_new here new]
    refine ⟨?_, ?_⟩
    · change insert _ st.seenSlices = _
      rw [counted.seen, keysOf_concat, same, Option.toFinset_some, Finset.union_comm, Finset.insert_eq]
    · intro block layer
      change ((st.layers.insert _ _).lookup (block, layer)).getD 0 = _
      rw [onceBytes_concat_of_new same fresh, lookup_insert_if, counted.bytes id.blockHash slice.layerIdx]
      by_cases own : (block, layer) = (id.blockHash, slice.layerIdx)
      · cases own
        rw [if_pos rfl, if_pos ⟨rfl, rfl⟩]
        unfold u64
        exact Nat.mod_add_mod _ _ _
      · have apart : ¬ (id.blockHash = block ∧ slice.layerIdx = layer) := by
          rintro ⟨rfl, rfl⟩
          exact own rfl
        rw [if_neg own, if_neg apart, Nat.add_zero]
        exact counted.bytes block layer

theorem Counted.foldl (counted : st.Counted slices) (more : List LayerSlice) :
    (more.foldl PublishStream.count st).Counted (slices ++ more) := by
  induction more generalizing st slices with
  | nil =>
    rw [append_nil]
    exact counted
  | cons slice more ih =>
    have later := ih (counted.count slice)
    rw [append_assoc] at later
    exact later

theorem lastSeq_foldl (st : PublishStream) (more : List LayerSlice) :
    (more.foldl PublishStream.count st).lastSeq = st.lastSeq := by
  induction more generalizing st with
  | nil => rfl
  | cons slice more ih =>
    refine (ih (st.count slice)).trans ?_
    unfold count
    split
    · rfl
    · split <;> rfl

theorem lastSeq_accept (st : PublishStream) (req : PublishRequest) : (st.accept req).lastSeq = max st.lastSeq req.seq := by
  unfold accept
  rw [lastSeq_foldl]
  dsimp only
  split <;> omega

theorem foldl_count_of_seen (old : ∀ slice ∈ slices, ∀ key, slice.key = some key → key ∈ st.seenSlices) :
    slices.foldl PublishStream.count st = st := by
  induction slices with
  | nil => rfl
  | cons slice slices ih =>
    rw [foldl_cons, count_eq_of_old (old slice mem_cons_self)]
    exact ih fun s mem => old s (mem_cons_of_mem slice mem)

structure Holds (st : PublishStream) (reqs : List PublishRequest) : Prop where
  counted : st.Counted (reqs.flatMap PublishRequest.slices)
  fence : ∀ req ∈ reqs, req.seq ≤ st.lastSeq

theorem holds_new : new.Holds [] :=
  ⟨counted_new, fun _ mem => absurd mem not_mem_nil⟩

theorem Holds.accept {reqs : List PublishRequest} (holds : st.Holds reqs) (req : PublishRequest) :
    (st.accept req).Holds (reqs ++ [req]) := by
  refine ⟨?_, ?_⟩
  · have flat : (reqs ++ [req]).flatMap PublishRequest.slices = reqs.flatMap PublishRequest.slices ++ req.slices := by
      rw [flatMap_append, flatMap_singleton]
    rw [flat]
    have before : Counted { st with lastSeq := if st.lastSeq < req.seq then req.seq else st.lastSeq }
        (reqs.flatMap PublishRequest.slices) := ⟨holds.counted.seen, holds.counted.bytes⟩
    exact before.foldl req.slices
  · intro other mem
    rw [lastSeq_accept]
    rcases mem_append.mp mem with mem | mem
    · have below := holds.fence other mem
      omega
    · rw [List.mem_singleton.mp mem]
      omega

theorem Holds.accept_again {reqs : List PublishRequest} (holds : st.Holds reqs) (mem : req ∈ reqs) :
    st.accept req = st := by
  have below := holds.fence req mem
  unfold PublishStream.accept
  rw [if_neg (by omega)]
  refine foldl_count_of_seen ?_
  intro slice here key same
  rw [holds.counted.seen]
  exact mem_keysOf.mpr ⟨slice, mem_flatMap.mpr ⟨req, mem, here⟩, same⟩

end PublishStream

namespace TransferServer

variable {debug : String → String} {s : TransferServer} {reqs : List PublishRequest} {scope : String}

variable (debug)

theorem handlePublish_cases (s : TransferServer) (req : PublishRequest) :
    ((s.handlePublish debug req).2.ok = true ∧ (s.handlePublish debug req).1.publish =
      s.publish.insert (publishScope req.requestId) ((s.stream (publishScope req.requestId)).accept req)) ∨
    ((s.handlePublish debug req).2.ok = false ∧ (s.handlePublish debug req).1.publish =
      s.publish.insert (publishScope req.requestId) (s.stream (publishScope req.requestId))) := by
  unfold handlePublish
  dsimp only
  split
  · exact .inr ⟨rfl, rfl⟩
  · exact .inl ⟨rfl, rfl⟩

theorem lookup_handlePublish (s : TransferServer) (req : PublishRequest) {other : String}
    (ne : publishScope req.requestId ≠ other) :
    (s.handlePublish debug req).1.publish.lookup other = s.publish.lookup other := by
  rcases handlePublish_cases debug s req with ⟨_, eq⟩ | ⟨_, eq⟩ <;> rw [eq, lookup_insert_if, if_neg (Ne.symm ne)]

theorem stream_handlePublish (s : TransferServer) (req : PublishRequest) (scope : String) :
    (s.handlePublish debug req).1.stream scope =
      if publishScope req.requestId = scope ∧ (s.handlePublish debug req).2.ok then (s.stream scope).accept req
      else s.stream scope := by
  by_cases same : publishScope req.requestId = scope
  · subst same
    unfold stream
    rcases handlePublish_cases debug s req with ⟨ok, eq⟩ | ⟨ok, eq⟩ <;> rw [eq, ok, lookup_insert_if, if_pos rfl]
    · rw [if_pos ⟨rfl, rfl⟩]
      rfl
    · rw [if_neg fun both => Bool.false_ne_true both.2]
      rfl
  · rw [if_neg fun both => same both.1]
    unfold stream
    rw [lookup_handlePublish debug s req same]

theorem holds_run (scope : String) (reqs : List PublishRequest) (s : TransferServer)
    (before : List PublishRequest) (holds : (s.stream scope).Holds before) :
    ((s.run debug reqs).stream scope).Holds (before ++ accepted debug scope s reqs) := by
  induction reqs generalizing s before with
  | nil =>
    rw [accepted, append_nil]
    exact holds
  | cons req reqs ih =>
    have next := stream_handlePublish debug s req scope
    unfold accepted
    split at next
    next taken =>
      rw [if_pos taken]
      have later := ih (s.handlePublish debug req).1 (before ++ [req]) (next ▸ holds.accept req)
      rw [append_assoc] at later
      exact later
    next not =>
      rw [if_neg not]
      exact ih (s.handlePublish debug req).1 before (next ▸ holds)

variable {debug}

theorem publishedLayerBytes_eq (s : TransferServer) (scope : String) (block : Flat) (layer : Nat) :
    (s.publishedLayerBytes scope block layer).getD 0 = ((s.stream scope).layers.lookup (block, layer)).getD 0 := by
  unfold publishedLayerBytes stream
  cases s.publish.lookup scope <;> rfl

theorem scope_of_accepted {req : PublishRequest} (mem : req ∈ accepted debug scope s reqs) :
    publishScope req.requestId = scope := by
  induction reqs generalizing s with
  | nil => exact absurd mem not_mem_nil
  | cons first reqs ih =>
    unfold accepted at mem
    dsimp only at mem
    split at mem
    next taken =>
      rcases mem_cons.mp mem with rfl | mem
      · exact taken.1
      · exact ih mem
    · exact ih mem

/-- For every sequence of requests to any scopes, a total is what each distinct slice of the accepted requests of its
scope makes when counted once, if and only if that is a `u64`; a request that was accepted changes no stream when it
is sent again; and no request touches another scope. -/
theorem slices_counted_once (debug : String → String) (reqs : List PublishRequest) (start : s.publish.lookup scope = none) :
    (∀ block layer, ((s.run debug reqs).publishedLayerBytes scope block layer).getD 0 =
          onceBytes ((accepted debug scope s reqs).flatMap PublishRequest.slices) block layer ↔
        onceBytes ((accepted debug scope s reqs).flatMap PublishRequest.slices) block layer < 2 ^ 64) ∧
    (∀ req ∈ accepted debug scope s reqs, ∀ other block layer,
      (((s.run debug reqs).handlePublish debug req).1.publishedLayerBytes other block layer).getD 0 =
        ((s.run debug reqs).publishedLayerBytes other block layer).getD 0) ∧
    ∀ req other, publishScope req.requestId ≠ other →
      ((s.run debug reqs).handlePublish debug req).1.publish.lookup other = (s.run debug reqs).publish.lookup other := by
  have holds := holds_run debug scope reqs s [] (by
    unfold stream
    rw [start]
    exact PublishStream.holds_new)
  rw [nil_append] at holds
  refine ⟨?_, ?_, ?_⟩
  · intro block layer
    rw [publishedLayerBytes_eq, holds.counted.bytes block layer]
    unfold u64
    exact Nat.mod_eq_iff_lt (by decide)
  · intro req mem other block layer
    have again : ((s.run debug reqs).handlePublish debug req).1.stream other = (s.run debug reqs).stream other := by
      rw [stream_handlePublish]
      split
      next taken =>
        have own := scope_of_accepted mem
        rw [← taken.1, own]
        exact holds.accept_again mem
      next => rfl
    rw [publishedLayerBytes_eq, publishedLayerBytes_eq, again]
  · intro req other ne
    exact lookup_handlePublish debug _ req ne

def sampleSlice (offset length : Nat) : LayerSlice :=
  ⟨some ⟨"m", [1], 1, "public", ""⟩, 0, offset, length⟩

/-- A request that is sent again after a later one, and once more without a number. -/
def sampleRequests : List PublishRequest :=
  [⟨"r", 1, [sampleSlice 0 64]⟩, ⟨"r", 2, [sampleSlice 64 64, sampleSlice 0 64]⟩, ⟨"r", 1, [sampleSlice 0 64]⟩,
    ⟨"r", 0, [sampleSlice 0 64]⟩]

theorem slices_counted_once_resent : ((run id ⟨∅⟩ sampleRequests).publishedLayerBytes "r" [1] 0).getD 0 =
      onceBytes ((accepted id "r" ⟨∅⟩ sampleRequests).flatMap PublishRequest.slices) [1] 0 ∧
      onceBytes ((accepted id "r" ⟨∅⟩ sampleRequests).flatMap PublishRequest.slices) [1] 0 = 128 := by
  have total : onceBytes ((accepted id "r" ⟨∅⟩ sampleRequests).flatMap PublishRequest.slices) [1] 0 = 128 := by
    decide +kernel
  refine ⟨((slices_counted_once id sampleRequests rfl).1 [1] 0).mpr ?_, total⟩
  rw [total]
  decide

def hugeRequest : PublishRequest :=
  ⟨"r", 1, [sampleSlice 0 9223372036854775808, sampleSlice 9223372036854775808 9223372036854775808]⟩

theorem layer_bytes_wrap : (run id ⟨∅⟩ [hugeRequest]).publishedLayerBytes "r" [1] 0 = some 0 ∧
      accepted id "r" ⟨∅⟩ [hugeRequest] = [hugeRequest] ∧ onceBytes hugeRequest.slices [1] 0 = 18446744073709551616 := by
  refine ⟨by decide +kernel, by decide +kernel, by decide +kernel⟩

end TransferServer

end LakeKv
