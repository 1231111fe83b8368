import LakeKv.PutEndRefs

namespace LakeKv

open Commit List PutEndSession Std.Do TierStore

set_option mvcgen.warning false

namespace PutEndSession

def hashes (s : PutEndSession) : List Flat :=
  s.blocks.map fun b => b.id.blockHash

/-- The same session, but for what an attempt notes in it. -/
structure Like (s s' : PutEndSession) : Prop where
  nodeId : s'.nodeId = s.nodeId
  modelId : s'.modelId = s.modelId
  revision : s'.revision = s.revision
  prefixHashes : s'.prefixHashes = s.prefixHashes
  ids : s'.blocks.map PendingBlock.id = s.blocks.map PendingBlock.id

namespace Like

variable {s s' : PutEndSession}

variable (like : Like s s')
include like

theorem hashes : s'.hashes = s.hashes := by
  have split : ∀ bs : List PendingBlock,
      (bs.map fun b => b.id.blockHash) = (bs.map PendingBlock.id).map KvBlockId.blockHash := by
    intro bs
    rw [map_map]
    rfl
  rw [PutEndSession.hashes, PutEndSession.hashes, split, split, like.ids]

theorem poolKind : s'.poolKind = s.poolKind := by
  have split : ∀ bs : List PendingBlock,
      (bs.head?.map fun b => b.id.poolKind) = (bs.map PendingBlock.id).head?.map KvBlockId.poolKind := by
    intro bs
    cases bs <;> rfl
  rw [PutEndSession.poolKind, PutEndSession.poolKind, split, split, like.ids]

theorem registerRequest {σ : Type} {S : TierStore σ} (store : σ) :
    s'.registerRequest S store = s.registerRequest S store := by
  have split : ∀ (s : PutEndSession), (s.registerRequest S store).blocks =
      (s.blocks.map PendingBlock.id).map fun id =>
        { id := some id
          blockKind := blockKindTType
          locations := if S.isL2Durable store id.blockHash then
              [⟨Tier.l2.toWire, s.nodeId, ((S.l2Placement store id.blockHash).getD (1, 0)).1,
                ((S.l2Placement store id.blockHash).getD (1, 0)).2⟩]
            else []
          l3Present := S.l3Present store id.blockHash
          refCount := 0 } := by
    intro s
    rw [map_map]
    rfl
  have blocks : (s'.registerRequest S store).blocks = (s.registerRequest S store).blocks := by
    rw [split, split, like.ids, like.nodeId]
  have node : (s'.registerRequest S store).nodeId = (s.registerRequest S store).nodeId := like.nodeId
  have chain : (s'.registerRequest S store).prefixHashes = (s.registerRequest S store).prefixHashes :=
    like.prefixHashes
  cases eq : s'.registerRequest S store
  cases eq' : s.registerRequest S store
  simp_all

end Like

end PutEndSession

section Loops

variable {τ α ε : Type} {g : τ → α → τ × Except ε Unit} {t t' : τ} {x : α}

theorem runAll_cons_ok (passes : g t x = (t', .ok ())) (xs : List α) : runAll g t (x :: xs) = runAll g t' xs := by
  rw [runAll, passes]

theorem runAll_cons_error {e : ε} (fails : g t x = (t', .error e)) (xs : List α) :
    runAll g t (x :: xs) = (t', .error e) := by
  rw [runAll, fails]

theorem runAll_append_ok {xs : List α} (done : runAll g t xs = (t', .ok ())) (more : List α) :
    runAll g t (xs ++ more) = runAll g t' more := by
  induction xs generalizing t with
  | nil =>
    cases done
    rfl
  | cons y ys ih =>
    rcases first : g t y with ⟨t₁, e | _⟩
    · rw [runAll_cons_error first] at done
      cases done
    · rw [runAll_cons_ok first] at done
      rw [cons_append, runAll_cons_ok first]
      exact ih done

end Loops

variable {σ P : Type}

namespace TierStore

variable (S : TierStore σ)

def flushOne (x : σ × List Flat) (b : PendingBlock) : (σ × List Flat) × Except String Unit :=
  match S.putDurable b.id.blockHash b.bytes x.1 with
  | (store, .error msg) => ((store, x.2), .error msg)
  | (store, .ok demoted) =>
    ((store, x.2 ++ demoted),
      if S.isSettled store b.id.blockHash then .ok ()
      else .error ("flush: block " ++ debugBytes b.id.blockHash ++ " not settled on L2|L3"))

def flush (store : σ) (blocks : List PendingBlock) : (σ × List Flat) × Except String Unit :=
  runAll S.flushOne (store, []) blocks

def pinAll (store : σ) (hs : List Flat) : σ :=
  hs.foldl (fun store h => S.pin h store) store

def releaseAll (store : σ) (hs : List Flat) : σ :=
  hs.foldl (fun store h => (S.unpin h store).1) store

def dropAll (store : σ) (hs : List Flat) : σ :=
  hs.foldl (fun store h => S.discardSettled h (S.unpin h store).1) store

def unpinEach (store : σ) (hs : List Flat) : σ × Except String Unit :=
  runAll (fun store h => S.unpin h store) store hs

end TierStore

namespace ControlPlanePort

variable (C : ControlPlanePort P) (s : PutEndSession)

def publishMoved (cp : P) (h : Flat) : P × Except String Unit :=
  if s.hashes.contains h then (cp, .ok ())
  else
    match C.publishLocation s.modelId s.revision s.poolKind h .l2 s.nodeId false cp with
    | (cp', .error msg) => (cp', .error msg)
    | (cp', .ok ()) => C.setL3Present s.modelId s.revision s.poolKind h true cp'

/-- The calls made after the registration. Those about the session's own blocks say what the store has. -/
inductive LateCall (S : TierStore σ) (store : σ) : P → P → Prop
  | onL3 {cp : P} {h : Flat} (own : h ∈ s.hashes) (present : S.l3Present store h = true) :
      LateCall S store cp (C.setL3Present s.modelId s.revision s.poolKind h true cp).1
  | notOnL2 {cp : P} {h : Flat} (own : h ∈ s.hashes) (absent : S.isL2Durable store h = false) :
      LateCall S store cp (C.publishLocation s.modelId s.revision s.poolKind h .l2 s.nodeId false cp).1
  | refs {cp : P} (ds : List RefDelta) : LateCall S store cp (C.reportRefs ds cp).1
  | barrier {cp : P} (req : RequestBarrierRequest) : LateCall S store cp (C.requestBarrier req cp).1

def Late (S : TierStore σ) (store : σ) : P → P → Prop :=
  Relation.ReflTransGen (C.LateCall s S store)

end ControlPlanePort

/-- Everything an attempt of `commit_through` can come to: what it leaves in the store and at the control
plane, and its result. -/
inductive Outcome (S : TierStore σ) (C : ControlPlanePort P) (s : PutEndSession) (store : σ) (cp : P) :
    σ → P → Except String Unit → Prop
  | unadmitted {cp₁ : P} {msg : String}
      (admission : C.admitRegisterBlocks (s.registerRequest S store) cp = (cp₁, .error msg)) (text : String) :
      Outcome S C s store cp store cp₁ (.error text)
  | unflushed {cp₁ : P} {f : σ × List Flat} {msg : String}
      (admission : C.admitRegisterBlocks (s.registerRequest S store) cp = (cp₁, .ok ()))
      (flush : S.flush store s.blocks = (f, .error msg)) (text : String) :
      Outcome S C s store cp f.1 cp₁ (.error text)
  | unpublished {cp₁ cp₂ : P} {f : σ × List Flat} {msg : String}
      (admission : C.admitRegisterBlocks (s.registerRequest S store) cp = (cp₁, .ok ()))
      (flush : S.flush store s.blocks = (f, .ok ()))
      (publish : runAll (C.publishMoved s) cp₁ f.2 = (cp₂, .error msg)) (text : String) :
      Outcome S C s store cp (S.releaseAll (S.pinAll f.1 s.hashes) s.hashes) cp₂ (.error text)
  | unregistered {cp₁ cp₂ cp₃ : P} {f : σ × List Flat} {msg : String}
      (admission : C.admitRegisterBlocks (s.registerRequest S store) cp = (cp₁, .ok ()))
      (flush : S.flush store s.blocks = (f, .ok ()))
      (publish : runAll (C.publishMoved s) cp₁ f.2 = (cp₂, .ok ()))
      (register : C.registerBlocks (s.registerRequest S (S.pinAll f.1 s.hashes)) cp₂ = (cp₃, .error msg))
      (text : String) :
      Outcome S C s store cp (S.dropAll (S.pinAll f.1 s.hashes) s.hashes) cp₃ (.error text)
  | undone {cp₁ cp₂ cp₃ cp₄ : P} {f : σ × List Flat}
      (admission : C.admitRegisterBlocks (s.registerRequest S store) cp = (cp₁, .ok ()))
      (flush : S.flush store s.blocks = (f, .ok ()))
      (publish : runAll (C.publishMoved s) cp₁ f.2 = (cp₂, .ok ()))
      (register : C.registerBlocks (s.registerRequest S (S.pinAll f.1 s.hashes)) cp₂ = (cp₃, .ok ()))
      (late : C.Late s S (S.pinAll f.1 s.hashes) cp₃ cp₄) (text : String) :
      Outcome S C s store cp (S.releaseAll (S.pinAll f.1 s.hashes) s.hashes) cp₄ (.error text)
  | finished {cp₁ cp₂ cp₃ cp₄ : P} {f : σ × List Flat}
      (admission : C.admitRegisterBlocks (s.registerRequest S store) cp = (cp₁, .ok ()))
      (flush : S.flush store s.blocks = (f, .ok ()))
      (publish : runAll (C.publishMoved s) cp₁ f.2 = (cp₂, .ok ()))
      (register : C.registerBlocks (s.registerRequest S (S.pinAll f.1 s.hashes)) cp₂ = (cp₃, .ok ()))
      (late : C.Late s S (S.pinAll f.1 s.hashes) cp₃ cp₄) :
      Outcome S C s store cp (S.unpinEach (S.pinAll f.1 s.hashes) s.hashes).1 cp₄
        (S.unpinEach (S.pinAll f.1 s.hashes) s.hashes).2

section Calls

variable {S : TierStore σ} {C : ControlPlanePort P} (s : PutEndSession) (call : P → P × Except String Unit)

variable (st₀ : Committing σ P) (store : σ)

theorem port_exact : ⦃fun st => ⌜st = st₀⌝⦄ port call
    ⦃post⟨fun _ st => ⌜st = { st₀ with cp := (call st₀.cp).1 } ∧ (call st₀.cp).2 = .ok ()⌝,
      fun msg st => ⌜st = { st₀ with cp := (call st₀.cp).1 } ∧ (call st₀.cp).2 = .error msg⌝⟩⦄ := by
  mvcgen [port]
  case vc1.h_1 st heq answer hok =>
    subst heq
    exact ⟨rfl, hok⟩
  case vc2.h_2 st heq answer msg herr =>
    subst heq
    exact ⟨rfl, herr⟩

theorem unpinAll_store :
    s.blocks.foldl (fun store b => (S.unpin b.id.blockHash store).1) store = S.releaseAll store s.hashes := by
  rw [releaseAll, hashes, foldl_map]

theorem orUnpin_exact :
    ⦃fun st => ⌜st = st₀⌝⦄ orUnpin S (port call)
    ⦃post⟨fun _ st => ⌜st = { st₀ with cp := (call st₀.cp).1 } ∧ (call st₀.cp).2 = .ok ()⌝,
      fun msg st => ⌜st = { st₀ with
          cp := (call st₀.cp).1
          store := S.releaseAll st₀.store st₀.session.hashes } ∧ (call st₀.cp).2 = .error msg⌝⟩⦄ := by
  have pass := port_exact (σ := σ) call
  mvcgen [orUnpin, session, pass, unpinAll, modifyStore]
  case vc1.post.success st same _ st' =>
    subst same
    exact fun now passed => ⟨now, passed⟩
  case vc2.post.except.handle st same _ st' failed _ =>
    subst same
    obtain ⟨rfl, failed⟩ := failed
    exact ⟨congrArg (Committing.mk st.session · (call st.cp).1) (unpinAll_store st.session st.store), failed⟩

theorem storeCall_exact {α : Type} (call : σ → σ × Except String α) (st₀ : Committing σ P) :
    ⦃fun st => ⌜st = st₀⌝⦄ storeCall call
    ⦃post⟨fun a st => ⌜st = { st₀ with store := (call st₀.store).1 } ∧ (call st₀.store).2 = .ok a⌝,
      fun msg st => ⌜st = { st₀ with store := (call st₀.store).1 } ∧ (call st₀.store).2 = .error msg⌝⟩⦄ := by
  mvcgen [storeCall]
  case vc1.h_1 st same _ _ passed =>
    subst same
    exact ⟨rfl, passed⟩
  case vc2.h_2 st same _ _ failed =>
    subst same
    exact ⟨rfl, failed⟩

section FlushOne

variable {store : σ} {b : PendingBlock} (before : List Flat)

theorem flushOne_refused {msg : String} (refused : (S.putDurable b.id.blockHash b.bytes store).2 = .error msg) :
    S.flushOne (store, before) b = (((S.putDurable b.id.blockHash b.bytes store).1, before), .error msg) := by
  rcases answer : S.putDurable b.id.blockHash b.bytes store with ⟨store', result⟩
  rw [answer] at refused
  cases refused
  rw [flushOne, answer]

theorem flushOne_put {demoted : List Flat} (put : (S.putDurable b.id.blockHash b.bytes store).2 = .ok demoted) :
    S.flushOne (store, before) b = (((S.putDurable b.id.blockHash b.bytes store).1, before ++ demoted),
      if S.isSettled (S.putDurable b.id.blockHash b.bytes store).1 b.id.blockHash then .ok ()
      else .error ("flush: block " ++ debugBytes b.id.blockHash ++ " not settled on L2|L3")) := by
  rcases answer : S.putDurable b.id.blockHash b.bytes store with ⟨store', result⟩
  rw [answer] at put
  cases put
  rw [flushOne, answer]

end FlushOne

def noteDurable (s : PutEndSession) (i : Nat) : PutEndSession :=
  { s with blocks := s.blocks.modify i fun b => { b with durable := true } }

theorem flushBlock_exact (b : PendingBlock) (i : Nat) (st₀ : Committing σ P) : ⦃fun st => ⌜st = st₀⌝⦄ flushBlock S b i
    ⦃post⟨fun demoted st => ⌜st.cp = st₀.cp ∧ st.session = noteDurable st₀.session i ∧
        ∀ before, S.flushOne (st₀.store, before) b = ((st.store, before ++ demoted), .ok ())⌝,
      fun _ st => ⌜st.cp = st₀.cp ∧ ∀ before, ∃ after msg,
        S.flushOne (st₀.store, before) b = ((st.store, after), .error msg)⌝⟩⦄ := by
  have put := storeCall_exact (P := P) (S.putDurable b.id.blockHash b.bytes)
  mvcgen [flushBlock, session, modifySession, put, store]
  case vc1.post.success.isTrue st same _ st' passed _ _ _ settled =>
    subst same
    obtain ⟨rfl, passed⟩ := passed
    refine ⟨rfl, ?_, ?_⟩
    · unfold noteDurable
      rw [← settled]
    · intro before
      rw [flushOne_put before passed, if_pos settled]
  case vc2.post.success.isFalse st same _ st' passed _ _ _ unsettled =>
    subst same
    obtain ⟨rfl, passed⟩ := passed
    refine ⟨rfl, ?_⟩
    intro before
    have put := flushOne_put before passed
    rw [if_neg unsettled] at put
    exact ⟨_, _, put⟩
  case vc3.post.except.handle st same _ st' =>
    subst same
    rintro rfl refused
    exact ⟨rfl, fun before => ⟨_, _, flushOne_refused before refused⟩⟩

structure Flushing (S : TierStore σ) (st₀ : Committing σ P) (done : List (PendingBlock × Nat)) (demoted : List Flat)
    (st : Committing σ P) : Prop where
  cp : st.cp = st₀.cp
  session : st.session = { st₀.session with blocks := st.session.blocks }
  flags : ∀ j, st.session.blocks[j]? = (st₀.session.blocks[j]?).map fun (b : PendingBlock) =>
    { b with durable := if j < done.length then true else b.durable }
  flushed : S.flush st₀.store (done.map Prod.fst) = ((st.store, demoted), .ok ())

theorem Flushing.start (st : Committing σ P) : Flushing S st [] [] st := by
  refine ⟨rfl, rfl, ?_, rfl⟩
  intro j
  cases st.session.blocks[j]? <;> rfl

theorem Flushing.next {st₀ st st' : Committing σ P} {done : List (PendingBlock × Nat)} {demoted more : List Flat}
    (flushing : Flushing S st₀ done demoted st) {b : PendingBlock} (cp : st'.cp = st.cp)
    (noted : st'.session = noteDurable st.session done.length)
    (one : ∀ before, S.flushOne (st.store, before) b = ((st'.store, before ++ more), .ok ())) (i : Nat) :
    Flushing S st₀ (done ++ [(b, i)]) (demoted ++ more) st' := by
  refine ⟨cp.trans flushing.cp, ?_, ?_, ?_⟩
  · rw [noted, flushing.session]
    rfl
  · intro j
    rw [noted, noteDurable]
    dsimp only
    rw [getElem?_modify, flushing.flags]
    rw [length_append, length_singleton]
    cases st₀.session.blocks[j]? with
    | none => simp
    | some block =>
      by_cases here : done.length = j
      · simp [here]
      · have same : j < done.length + 1 ↔ j < done.length := by omega
        simp [here, same]
  · rw [map_append, map_singleton, flush, runAll_append_ok flushing.flushed]
    rw [runAll_cons_ok (one demoted)]
    rfl

theorem zipIdx_split {blocks : List PendingBlock} {done rest : List (PendingBlock × Nat)} {b : PendingBlock × Nat}
    (split : blocks.zipIdx = done ++ b :: rest) :
    b.2 = done.length ∧ blocks = done.map Prod.fst ++ b.1 :: rest.map Prod.fst := by
  have here : blocks.zipIdx[done.length]? = some b := by
    rw [split]
    simp
  constructor
  · rw [getElem?_zipIdx] at here
    cases found : blocks[done.length]? with
    | none =>
      rw [found] at here
      cases here
    | some block =>
      rw [found] at here
      cases here
      exact Nat.zero_add _
  · have all := congrArg (List.map Prod.fst) split
    rw [zipIdx_map_fst] at all
    rw [all, map_append, map_cons]

theorem flushDurable_exact : ⦃fun st => ⌜st = st₀⌝⦄ flushDurable S
    ⦃post⟨fun demoted st => ⌜Flushing S st₀ st₀.session.blocks.zipIdx demoted st⌝,
      fun _ st => ⌜st.cp = st₀.cp ∧ ∃ after msg,
        S.flush st₀.store st₀.session.blocks = ((st.store, after), .error msg)⌝⟩⦄ := by
  have one := flushBlock_exact (S := S) (P := P)
  mvcgen [flushDurable, session, one] invariants
  · post⟨fun x st => ⌜Flushing S st₀ x.1.1 x.2 st⌝, fun _ st => ⌜st.cp = st₀.cp ∧ ∃ after msg,
        S.flush st₀.store st₀.session.blocks = ((st.store, after), .error msg)⌝⟩
  case vc1.step.post.success st same done b rest split demoted st₁ flushing more _ st₂ passed =>
    obtain ⟨cp, noted, passed⟩ := passed
    rw [(zipIdx_split split).1] at noted
    exact flushing.next cp noted passed b.2
  case vc2.step.post.except.handle st same done b rest split demoted st₁ flushing _ =>
    intro st₂ cp failed
    subst same
    refine ⟨cp.trans flushing.cp, ?_⟩
    obtain ⟨after, msg, failed⟩ := failed demoted
    refine ⟨after, msg, ?_⟩
    rw [(zipIdx_split split).2, flush, runAll_append_ok flushing.flushed]
    exact runAll_cons_error failed _
  case vc3.pre st same =>
    subst same
    exact .start st
  case vc4.post.success st same demoted st' flushing =>
    subst same
    exact flushing

theorem Flushing.finished {st₀ st : Committing σ P} {demoted : List Flat}
    (flushing : Flushing S st₀ st₀.session.blocks.zipIdx demoted st) :
    st₀.session.Like st.session ∧ st.session.allDurable = true ∧
      S.flush st₀.store st₀.session.blocks = ((st.store, demoted), .ok ()) := by
  have all : st.session.blocks = st₀.session.blocks.map fun b => { b with durable := true } := by
    refine ext_getElem? fun j => ?_
    rw [flushing.flags, getElem?_map]
    cases found : st₀.session.blocks[j]? with
    | none => rfl
    | some block =>
      have inside : j < st₀.session.blocks.length := (List.getElem?_eq_some_iff.mp found).1
      simp [inside]
  refine ⟨?_, ?_, ?_⟩
  · rw [flushing.session, all]
    refine ⟨rfl, rfl, rfl, rfl, ?_⟩
    exact map_map
  · rw [allDurable, all]
    simp
  · have flushed := flushing.flushed
    rw [zipIdx_map_fst] at flushed
    exact flushed

theorem publishMoved_own {s : PutEndSession} {h : Flat} (own : h ∈ s.hashes) (cp : P) :
    C.publishMoved s cp h = (cp, .ok ()) :=
  if_pos (contains_iff_mem.mpr own)

section PublishMoved

variable {s : PutEndSession} {h : Flat} {cp : P} {msg : String}

theorem publishMoved_stays (foreign : h ∉ s.hashes)
    (failed : (C.publishLocation s.modelId s.revision s.poolKind h .l2 s.nodeId false cp).2 = .error msg) :
    C.publishMoved s cp h =
      ((C.publishLocation s.modelId s.revision s.poolKind h .l2 s.nodeId false cp).1, .error msg) := by
  rw [ControlPlanePort.publishMoved, if_neg (contains_iff_mem.not.mpr foreign)]
  rcases answer : C.publishLocation s.modelId s.revision s.poolKind h .l2 s.nodeId false cp with ⟨cp', result⟩
  rw [answer] at failed
  cases failed
  rfl

theorem publishMoved_moves (foreign : h ∉ s.hashes)
    (passed : (C.publishLocation s.modelId s.revision s.poolKind h .l2 s.nodeId false cp).2 = .ok ()) :
    C.publishMoved s cp h = C.setL3Present s.modelId s.revision s.poolKind h true
      (C.publishLocation s.modelId s.revision s.poolKind h .l2 s.nodeId false cp).1 := by
  rw [ControlPlanePort.publishMoved, if_neg (contains_iff_mem.not.mpr foreign)]
  rcases answer : C.publishLocation s.modelId s.revision s.poolKind h .l2 s.nodeId false cp with ⟨cp', result⟩
  rw [answer] at passed
  cases passed
  rfl

end PublishMoved

theorem PutEndSession.any_iff (h : Flat) :
    (s.blocks.any fun b => b.id.blockHash == h) = true ↔ h ∈ s.hashes := by
  simp [hashes]

theorem publishDemoted_exact (demoted : List Flat) (st₀ : Committing σ P) :
    Leads (· = st₀) (publishDemoted S C demoted)
      (fun st => ∃ cp, runAll (C.publishMoved st₀.session) st₀.cp demoted = (cp, .ok ()) ∧ st = { st₀ with cp := cp })
      (fun st => ∃ cp msg, runAll (C.publishMoved st₀.session) st₀.cp demoted = (cp, .error msg) ∧
        st = { st₀ with cp := cp, store := S.releaseAll st₀.store st₀.session.hashes }) := by
  have publish := orUnpin_exact (S := S) (P := P)
  mvcgen [publishDemoted, session, publish] invariants
  · post⟨fun x st => ⌜∃ cp, runAll (C.publishMoved st₀.session) st₀.cp x.1.1 = (cp, .ok ()) ∧
        st = { st₀ with cp := cp }⌝,
      fun _ st => ⌜∃ cp msg, runAll (C.publishMoved st₀.session) st₀.cp demoted = (cp, .error msg) ∧
        st = { st₀ with cp := cp, store := S.releaseAll st₀.store st₀.session.hashes }⌝⟩
  case vc1.step.isTrue st same done h rest split _ own st₁ so =>
    subst same
    obtain ⟨cp, so, rfl⟩ := so
    refine ⟨cp, ?_, rfl⟩
    rw [runAll_append_ok so, runAll_cons_ok (publishMoved_own ((st.session.any_iff h).mp own) cp)]
    rfl
  case vc2.step.isFalse.post.success.post.success st same done h rest split _ foreign st₁ so _ st₂ one _ st₃ two =>
    subst same
    obtain ⟨cp, so, rfl⟩ := so
    obtain ⟨rfl, one⟩ := one
    obtain ⟨rfl, two⟩ := two
    refine ⟨_, ?_, rfl⟩
    have moves := publishMoved_moves ((st.session.any_iff h).not.mp foreign) one
    rw [runAll_append_ok so, runAll_cons_ok (moves.trans (Prod.ext rfl two))]
    rfl
  case vc3.step.isFalse.post.success.post.except.handle st same done h rest split _ foreign st₁ so _ st₂ one msg =>
    rintro st₃ rfl two
    subst same
    obtain ⟨cp, so, rfl⟩ := so
    obtain ⟨rfl, one⟩ := one
    refine ⟨_, msg, ?_, rfl⟩
    have moves := publishMoved_moves ((st.session.any_iff h).not.mp foreign) one
    rw [split, runAll_append_ok so]
    exact runAll_cons_error (moves.trans (Prod.ext rfl two)) _
  case vc4.step.isFalse.post.except.handle st same done h rest split _ foreign st₁ so msg =>
    rintro st₂ rfl one
    subst same
    obtain ⟨cp, so, rfl⟩ := so
    refine ⟨_, msg, ?_, rfl⟩
    have stays := publishMoved_stays ((st.session.any_iff h).not.mp foreign) one
    rw [split, runAll_append_ok so]
    exact runAll_cons_error stays _
  case vc5.pre st same =>
    subst same
    exact ⟨st.cp, rfl, rfl⟩

theorem discardSession_store :
    s.blocks.foldl (fun store b => S.discardSettled b.id.blockHash (S.unpin b.id.blockHash store).1) store =
      S.dropAll store s.hashes := by
  rw [dropAll, hashes, foldl_map]

theorem registerBlocks_exact :
    Leads (· = st₀) (registerBlocks S C)
      (fun st => ∃ cp, C.registerBlocks (st₀.session.registerRequest S st₀.store) st₀.cp = (cp, .ok ()) ∧
        st = { st₀ with cp := cp })
      (fun st => ∃ cp msg, C.registerBlocks (st₀.session.registerRequest S st₀.store) st₀.cp = (cp, .error msg) ∧
        st.cp = cp ∧ st.store = S.dropAll st₀.store st₀.session.hashes) := by
  have register := fun req => port_exact (σ := σ) (C.registerBlocks req)
  mvcgen [registerBlocks, session, store, modifySession, discardSession, modifyStore, register]
  case vc1.post.success st same _ _ st' =>
    subst same
    rintro rfl passed
    exact ⟨_, Prod.ext rfl passed, rfl⟩
  case vc2.post.except.handle st same _ msg st' failed _ _ =>
    subst same
    obtain ⟨rfl, failed⟩ := failed
    exact ⟨_, msg, Prod.ext rfl failed, rfl, discardSession_store st.session st.store⟩

end Calls

section Late

variable {S : TierStore σ} {C : ControlPlanePort P} {s : PutEndSession} {g : σ} {cp₃ : P}

structure Registered (S : TierStore σ) (C : ControlPlanePort P) (s : PutEndSession) (g : σ) (cp₃ : P)
    (st : Committing σ P) : Prop where
  like : s.Like st.session
  store : st.store = g
  late : C.Late s S g cp₃ st.cp

structure Released (S : TierStore σ) (C : ControlPlanePort P) (s : PutEndSession) (g : σ) (cp₃ : P)
    (st : Committing σ P) : Prop where
  store : st.store = S.releaseAll g s.hashes
  late : C.Late s S g cp₃ st.cp

namespace Registered

variable {st : Committing σ P}

variable (registered : Registered S C s g cp₃ st)
include registered

theorem call {cp : P} (one : C.LateCall s S g st.cp cp) : Registered S C s g cp₃ { st with cp := cp } :=
  ⟨registered.like, registered.store, registered.late.tail one⟩

theorem note (writebackOpen registerHoldOpen : Bool) : Registered S C s g cp₃ { st with session := { st.session with
      writebackOpen := writebackOpen, registerHoldOpen := registerHoldOpen } } :=
  ⟨⟨registered.like.nodeId, registered.like.modelId, registered.like.revision, registered.like.prefixHashes,
    registered.like.ids⟩, registered.store, registered.late⟩

theorem released {st' : Committing σ P} (cp : st'.cp = st.cp)
    (store : st'.store = st.session.blocks.foldl (fun store b => (S.unpin b.id.blockHash store).1) st.store) :
    Released S C s g cp₃ st' := by
  refine ⟨?_, cp ▸ registered.late⟩
  rw [store, unpinAll_store, registered.like.hashes, registered.store]

theorem onL3 {b : PendingBlock} (own : b ∈ st.session.blocks)
    (present : S.l3Present st.store b.id.blockHash = true) (cp : P) :
    C.LateCall s S g cp (C.setL3Present st.session.modelId st.session.revision st.session.poolKind
      b.id.blockHash true cp).1 := by
  have like := registered.like
  have mem : b.id.blockHash ∈ s.hashes := by
    rw [← like.hashes]
    exact mem_map_of_mem own
  rw [like.modelId, like.revision, like.poolKind]
  exact .onL3 mem (registered.store ▸ present)

theorem notOnL2 {b : PendingBlock} (own : b ∈ st.session.blocks)
    (absent : ¬ S.isL2Durable st.store b.id.blockHash = true) (cp : P) :
    C.LateCall s S g cp (C.publishLocation st.session.modelId st.session.revision st.session.poolKind
      b.id.blockHash .l2 st.session.nodeId false cp).1 := by
  have like := registered.like
  have mem : b.id.blockHash ∈ s.hashes := by
    rw [← like.hashes]
    exact mem_map_of_mem own
  rw [like.modelId, like.revision, like.poolKind, like.nodeId]
  rw [registered.store, Bool.not_eq_true] at absent
  exact .notOnL2 mem absent

end Registered

variable (S C s g cp₃)

theorem orUnpin_late (call : P → P × Except String Unit) :
    Leads (fun st => Registered S C s g cp₃ st ∧ C.LateCall s S g st.cp (call st.cp).1) (orUnpin S (port call))
      (Registered S C s g cp₃) (Released S C s g cp₃) := by
  have pass := port_exact (σ := σ) call
  mvcgen [orUnpin, session, pass, unpinAll, modifyStore]
  case vc1.post.success st registered _ st' =>
    rintro rfl -
    exact registered.1.call registered.2
  case vc2.post.except.handle st registered _ st' failed _ =>
    obtain ⟨rfl, -⟩ := failed
    exact (registered.1.call registered.2).released rfl rfl

theorem reportRefs_late (ds : List RefDelta) :
    Leads (Registered S C s g cp₃) (port (C.reportRefs ds)) (Registered S C s g cp₃) (Registered S C s g cp₃) := by
  mvcgen [port]
  case vc1.h_1 st registered _ _ => exact registered.call (.refs ds)
  case vc2.h_2 st registered _ _ _ => exact registered.call (.refs ds)

theorem requestBarrier_late (req : RequestBarrierRequest) :
    Leads (Registered S C s g cp₃) (port (C.requestBarrier req)) (Registered S C s g cp₃) (Registered S C s g cp₃) := by
  mvcgen [port]
  case vc1.h_1 st registered _ _ => exact registered.call (.barrier req)
  case vc2.h_2 st registered _ _ _ => exact registered.call (.barrier req)

theorem publishSettled_late :
    Leads (Registered S C s g cp₃) (publishSettled S C) (Registered S C s g cp₃) (Released S C s g cp₃) := by
  have publish := orUnpin_late S C s g cp₃
  have mem : ∀ {blocks done rest : List PendingBlock} {b : PendingBlock}, blocks = done ++ b :: rest → b ∈ blocks := by
    intro blocks done rest b split
    rw [split]
    exact mem_append_right done mem_cons_self
  mvcgen [publishSettled, session, store, publish] invariants
  · post⟨fun _ st => ⌜Registered S C s g cp₃ st⌝, fun _ st => ⌜Released S C s g cp₃ st⌝⟩
  case vc1.step.isTrue.pre st₀ start done b rest split _ _ _ present st registered =>
    exact ⟨registered, start.onL3 (mem split) present st.cp⟩
  case vc3.step.isTrue.post.success.isFalse.pre st₀ start done b rest split _ _ _ _ _ _ _ absent st registered =>
    exact ⟨registered, start.notOnL2 (mem split) absent st.cp⟩
  case vc8.step.isFalse.isFalse.pre st₀ start done b rest split _ _ _ _ absent st registered =>
    exact ⟨registered, start.notOnL2 (mem split) absent st.cp⟩

theorem releaseRegisterHold_late :
    Leads (Registered S C s g cp₃) (releaseRegisterHold C) (Registered S C s g cp₃) (fun _ => False) := by
  have report := reportRefs_late S C s g cp₃
  mvcgen [releaseRegisterHold, session, modifySession, report]
  case vc2.isTrue.post.success st₀ _ _ _ _ st registered _ =>
    exact registered.note st.session.writebackOpen false

theorem holdRegister_late :
    Leads (Registered S C s g cp₃) (holdRegister S C) (Registered S C s g cp₃) (Released S C s g cp₃) := by
  have report := reportRefs_late S C s g cp₃
  mvcgen [holdRegister, session, modifySession, orUnpin, report, unpinAll, modifyStore]
  case vc3.isFalse.post.success st registered _ => exact registered.note st.session.writebackOpen true
  case vc4.isFalse.post.except.handle registered _ => exact registered.released rfl rfl

theorem openWriteback_late :
    Leads (Registered S C s g cp₃) (openWriteback S C) (Registered S C s g cp₃) (Released S C s g cp₃) := by
  have report := reportRefs_late S C s g cp₃
  have release := releaseRegisterHold_late S C s g cp₃
  mvcgen [openWriteback, session, modifySession, report, release, unpinAll, modifyStore]
  case vc3.isFalse.post.success st registered _ => exact registered.note true st.session.registerHoldOpen
  case vc5.isFalse.post.except.handle.post.success registered _ => exact registered.released rfl rfl

theorem passBarrier_late :
    Leads (Registered S C s g cp₃) (passBarrier S C) (Registered S C s g cp₃) (Released S C s g cp₃) := by
  have report := reportRefs_late S C s g cp₃
  have barrier := requestBarrier_late S C s g cp₃
  mvcgen [passBarrier, session, modifySession, report, unpinAll, modifyStore, barrier]
  case vc2.post.success => exact id
  case vc4.post.except.handle.post.success st registered _ _ =>
    exact (registered.note false st.session.registerHoldOpen).released rfl rfl
  case vc5.post.except.handle.post.except.handle registered _ => exact registered.released rfl rfl

theorem closeWriteback_late :
    Leads (Registered S C s g cp₃) (closeWriteback S C) (Registered S C s g cp₃) (Released S C s g cp₃) := by
  have report := reportRefs_late S C s g cp₃
  have release := releaseRegisterHold_late S C s g cp₃
  mvcgen [closeWriteback, session, modifySession, report, release, unpinAll, modifyStore]
  case vc2.isTrue.post.success st registered _ => exact registered.note false st.session.registerHoldOpen
  case vc4.isTrue.post.except.handle.post.success registered _ _ => exact registered.released rfl rfl

theorem closeRegisterHold_late :
    Leads (Registered S C s g cp₃) (closeRegisterHold S C) (Registered S C s g cp₃) (Released S C s g cp₃) := by
  have report := reportRefs_late S C s g cp₃
  mvcgen [closeRegisterHold, session, modifySession, report, unpinAll, modifyStore]
  case vc2.isTrue.post.success st registered _ => exact registered.note st.session.writebackOpen false
  case vc3.isTrue.post.except.handle registered _ => exact registered.released rfl rfl

end Late

section Attempts

variable (S : TierStore σ) (C : ControlPlanePort P) (st₀ : Committing σ P)

def Ends (result : Except String Unit) (st : Committing σ P) : Prop :=
  Outcome S C st₀.session st₀.store st₀.cp st.store st.cp result

structure ToRegistered where
  cp₁ : P
  flushed : σ × List Flat
  cp₂ : P
  cp₃ : P
  admission : C.admitRegisterBlocks (st₀.session.registerRequest S st₀.store) st₀.cp = (cp₁, .ok ())
  flush : S.flush st₀.store st₀.session.blocks = (flushed, .ok ())
  publish : runAll (C.publishMoved st₀.session) cp₁ flushed.2 = (cp₂, .ok ())
  register : C.registerBlocks (st₀.session.registerRequest S (S.pinAll flushed.1 st₀.session.hashes)) cp₂ =
    (cp₃, .ok ())

variable {S C st₀}

def ToRegistered.pinned (way : ToRegistered S C st₀) : σ :=
  S.pinAll way.flushed.1 st₀.session.hashes

variable (S C st₀)

def Settling (st : Committing σ P) : Prop :=
  ∃ way : ToRegistered S C st₀, Registered S C st₀.session way.pinned way.cp₃ st

variable {S C st₀}

theorem triple_of_run {ε τ α : Type} {x : ExceptT ε (StateM τ) α} {I : τ → Prop} {Q : α → τ → Prop} {R : ε → τ → Prop}
    (h : ∀ t, I t → (∀ a, (x.run.run t).1 = .ok a → Q a (x.run.run t).2) ∧
      ∀ e, (x.run.run t).1 = .error e → R e (x.run.run t).2) :
    ⦃fun t => ⌜I t⌝⦄ x ⦃post⟨fun a t => ⌜Q a t⌝, fun e t => ⌜R e t⌝⟩⦄ := by
  intro t ht
  obtain ⟨hok, herror⟩ := h t ht
  simp only [wp, PredTrans.apply_pushExcept, PredTrans.apply_pushArg, PredTrans.apply_Pure_pure]
  rcases result : (StateT.run (ExceptT.run x) t).run.1 with e | a
  · exact herror e result
  · exact hok a result

theorem settling_of_late {x : Commit σ P Unit} (late : ∀ g cp₃, Leads (Registered S C st₀.session g cp₃) x
      (Registered S C st₀.session g cp₃) (Released S C st₀.session g cp₃)) :
    ⦃fun st => ⌜Settling S C st₀ st⌝⦄ x
    ⦃post⟨fun _ st => ⌜Settling S C st₀ st⌝, fun msg st => ⌜Ends S C st₀ (.error msg) st⌝⟩⦄ := by
  refine triple_of_run ?_
  rintro st ⟨way, registered⟩
  obtain ⟨passes, fails⟩ := run_of_triple (late way.pinned way.cp₃) registered
  refine ⟨fun a passed => ⟨way, passes a passed⟩, ?_⟩
  intro msg failed
  have released := fails msg failed
  unfold Ends
  rw [released.store]
  exact .undone way.admission way.flush way.publish way.register released.late msg

theorem pinAll_store (s : PutEndSession) (store : σ) :
    s.blocks.foldl (fun store b => S.pin b.id.blockHash store) store = S.pinAll store s.hashes := by
  rw [pinAll, hashes, foldl_map]

theorem PutEndSession.Like.publishMoved {s s' : PutEndSession} (like : s.Like s') :
    C.publishMoved s' = C.publishMoved s := by
  funext cp h
  rw [ControlPlanePort.publishMoved, ControlPlanePort.publishMoved, like.hashes, like.modelId, like.revision,
    like.poolKind, like.nodeId]

/-- An attempt whose flush has succeeded, with the session's blocks pinned. -/
structure Pinned (S : TierStore σ) (C : ControlPlanePort P) (st₀ : Committing σ P) (cp₁ : P)
    (flushed : σ × List Flat) (st : Committing σ P) : Prop where
  admission : C.admitRegisterBlocks (st₀.session.registerRequest S st₀.store) st₀.cp = (cp₁, .ok ())
  flush : S.flush st₀.store st₀.session.blocks = (flushed, .ok ())
  like : st₀.session.Like st.session
  store : st.store = S.pinAll flushed.1 st₀.session.hashes
  cp : st.cp = cp₁

theorem Flushing.pinned {cp₁ : P} {demoted : List Flat} {st : Committing σ P}
    (admission : C.admitRegisterBlocks (st₀.session.registerRequest S st₀.store) st₀.cp = (cp₁, .ok ()))
    (flushing : Flushing S { st₀ with cp := cp₁ } st₀.session.blocks.zipIdx demoted st) :
    Pinned S C st₀ cp₁ (st.store, demoted) { st with
      store := st₀.session.blocks.foldl (fun store b => S.pin b.id.blockHash store) st.store } := by
  obtain ⟨like, -, flush⟩ := flushing.finished
  exact ⟨admission, flush, like, pinAll_store st₀.session st.store, flushing.cp⟩

namespace Pinned

variable {cp₁ cp₂ cp₃ : P} {flushed : σ × List Flat} {st : Committing σ P} {msg : String}

variable (pinned : Pinned S C st₀ cp₁ flushed st)
include pinned

theorem unpublished (publish : runAll (C.publishMoved st.session) st.cp flushed.2 = (cp₂, .error msg)) (text : String) :
    Ends S C st₀ (.error text) { st with cp := cp₂, store := S.releaseAll st.store st.session.hashes } := by
  rw [pinned.like.publishMoved, pinned.cp] at publish
  unfold Ends
  dsimp only
  rw [pinned.store, pinned.like.hashes]
  exact .unpublished pinned.admission pinned.flush publish text

variable (publish : runAll (C.publishMoved st.session) st.cp flushed.2 = (cp₂, .ok ()))
include publish

theorem unregistered (register : C.registerBlocks (st.session.registerRequest S st.store) cp₂ = (cp₃, .error msg))
    {st' : Committing σ P} (cp : st'.cp = cp₃) (store : st'.store = S.dropAll st.store st.session.hashes)
    (text : String) : Ends S C st₀ (.error text) st' := by
  rw [pinned.like.publishMoved, pinned.cp] at publish
  rw [pinned.like.registerRequest, pinned.store] at register
  unfold Ends
  rw [cp, store, pinned.store, pinned.like.hashes]
  exact .unregistered pinned.admission pinned.flush publish register text

theorem settling (register : C.registerBlocks (st.session.registerRequest S st.store) cp₂ = (cp₃, .ok ())) :
    Settling S C st₀ { st with cp := cp₃ } := by
  rw [pinned.like.publishMoved, pinned.cp] at publish
  rw [pinned.like.registerRequest, pinned.store] at register
  exact ⟨⟨cp₁, flushed, cp₂, cp₃, pinned.admission, pinned.flush, publish, register⟩, pinned.like, pinned.store, .refl⟩

end Pinned

def Unpinning (S : TierStore σ) (C : ControlPlanePort P) (st₀ : Committing σ P) (done : List PendingBlock)
    (st : Committing σ P) : Prop :=
  ∃ way : ToRegistered S C st₀, C.Late st₀.session S way.pinned way.cp₃ st.cp ∧
    S.unpinEach way.pinned (done.map fun b => b.id.blockHash) = (st.store, .ok ())

namespace Unpinning

variable {done rest : List PendingBlock} {b : PendingBlock} {st : Committing σ P} {msg : String}

theorem next (unpinning : Unpinning S C st₀ done st) (passed : (S.unpin b.id.blockHash st.store).2 = .ok ()) :
    Unpinning S C st₀ (done ++ [b]) { st with store := (S.unpin b.id.blockHash st.store).1 } := by
  obtain ⟨way, late, unpinned⟩ := unpinning
  refine ⟨way, late, ?_⟩
  have one : S.unpin b.id.blockHash st.store = ((S.unpin b.id.blockHash st.store).1, .ok ()) :=
    Prod.ext rfl passed
  rw [map_append, unpinEach, runAll_append_ok unpinned, map_singleton]
  exact runAll_cons_ok one []

theorem failed (unpinning : Unpinning S C st₀ done st) (all : st₀.session.blocks = done ++ b :: rest)
    (failed : (S.unpin b.id.blockHash st.store).2 = .error msg) :
    Ends S C st₀ (.error msg) { st with store := (S.unpin b.id.blockHash st.store).1 } := by
  obtain ⟨way, late, unpinned⟩ := unpinning
  have one : S.unpin b.id.blockHash st.store = ((S.unpin b.id.blockHash st.store).1, .error msg) :=
    Prod.ext rfl failed
  have each : S.unpinEach way.pinned st₀.session.hashes = ((S.unpin b.id.blockHash st.store).1, .error msg) := by
    rw [hashes, all, map_append, unpinEach, runAll_append_ok unpinned, map_cons]
    exact runAll_cons_error one _
  have outcome := Outcome.finished way.admission way.flush way.publish way.register late
  rw [← ToRegistered.pinned, each] at outcome
  exact outcome

theorem finished (unpinning : Unpinning S C st₀ st₀.session.blocks st) : Ends S C st₀ (.ok ()) st := by
  obtain ⟨way, late, unpinned⟩ := unpinning
  have each : S.unpinEach way.pinned st₀.session.hashes = (st.store, .ok ()) := unpinned
  have outcome := Outcome.finished way.admission way.flush way.publish way.register late
  rw [← ToRegistered.pinned, each] at outcome
  exact outcome

end Unpinning

/-- Every way through `commit_through` is one of the outcomes. -/
theorem commitThrough_ends (st₀ : Committing σ P) : ⦃fun st => ⌜st = st₀⌝⦄ commitThrough S C
    ⦃post⟨fun _ st => ⌜Ends S C st₀ (.ok ()) st⌝, fun msg st => ⌜Ends S C st₀ (.error msg) st⌝⟩⦄ := by
  have admission := fun req => port_exact (σ := σ) (C.admitRegisterBlocks req)
  have flush := flushDurable_exact (S := S) (P := P)
  have demoted := publishDemoted_exact (S := S) (C := C)
  have register := registerBlocks_exact (S := S) (C := C)
  have settled := settling_of_late (publishSettled_late S C st₀.session)
  have hold := settling_of_late (holdRegister_late S C st₀.session)
  have writeback := settling_of_late (openWriteback_late S C st₀.session)
  have barrier := settling_of_late (passBarrier_late S C st₀.session)
  have close := settling_of_late (closeWriteback_late S C st₀.session)
  have release := settling_of_late (closeRegisterHold_late S C st₀.session)
  have unpin := fun call => storeCall_exact (P := P) (σ := σ) (α := Unit) call
  mvcgen [commitThrough, session, store, modifyStore, admission, flush, demoted, register, settled, hold, writeback,
    barrier, close, release, unpin] invariants
  · post⟨fun x st => ⌜Unpinning S C st₀ x.1.1 st⌝, fun msg st => ⌜Ends S C st₀ (.error msg) st⌝⟩
  all_goals clear admission flush demoted register settled hold writeback barrier close release unpin
  case vc1.post.success.post.success.isTrue.post.success.post.success.pre st same _ _ passed demoted st₁ flushing _ _ _ _
      st₂ published _ st₃ registered =>
    subst same
    obtain ⟨rfl, passed⟩ := passed
    obtain ⟨cp₂, published, rfl⟩ := published
    obtain ⟨cp₃, registered, rfl⟩ := registered
    have pinned := flushing.pinned (C := C) (Prod.ext rfl passed)
    exact pinned.settling published registered
  case vc7.step.post.success unpinning _ st one =>
    obtain ⟨rfl, passed⟩ := one
    exact unpinning.next passed
  case vc8.step.post.except.handle st same _ _ _ _ _ _ _ _ _ _ _ _ _ _ _ _ _ _ _ _ _ _ _ _ _ _ _ _ _ _ _ _ _ done b rest
      split _ st₁ unpinning msg =>
    subst same
    rintro st₂ rfl failed
    exact unpinning.failed split failed
  case vc9.post.success.post.success.isTrue.post.success.post.success.post.success.post.success.post.success.post.success.post.success.post.success.pre
      settling =>
    obtain ⟨way, registered⟩ := settling
    exact ⟨way, registered.late, congrArg (·, Except.ok ()) registered.store.symm⟩
  case vc10.post.success.post.success.isTrue.post.success.post.success.post.success.post.success.post.success.post.success.post.success.post.success.post.success
      st same _ _ _ _ _ _ _ _ _ _ _ _ _ _ _ _ _ _ _ _ _ _ _ _ _ _ _ _ _ _ _ _ _ _ _ unpinning =>
    subst same
    exact unpinning.finished
  case vc12.post.success.post.success.isTrue.post.success.post.except.handle st same _ _ passed demoted st₁ flushing _ _ _ _
      st₂ published msg st₃ =>
    subst same
    rintro ⟨cp₃, _, registered, cp, store⟩
    obtain ⟨rfl, passed⟩ := passed
    obtain ⟨cp₂, published, rfl⟩ := published
    have pinned := flushing.pinned (C := C) (Prod.ext rfl passed)
    exact pinned.unregistered published registered cp store msg
  case vc13.post.success.post.success.isTrue.post.except.handle st same _ _ passed demoted st₁ flushing _ _ _ msg st₂ =>
    subst same
    rintro ⟨cp₂, _, published, rfl⟩
    obtain ⟨rfl, passed⟩ := passed
    have pinned := flushing.pinned (C := C) (Prod.ext rfl passed)
    exact pinned.unpublished published msg
  case vc14.post.success.post.success.isFalse flushing _ undurable =>
    exact absurd flushing.finished.2.1 undurable
  case vc15.post.success.post.except.handle st same _ _ passed msg st₁ =>
    subst same
    obtain ⟨rfl, passed⟩ := passed
    rintro cp ⟨after, text, failed⟩
    have outcome := Outcome.unflushed (C := C) (Prod.ext rfl passed) failed msg
    unfold Ends
    rw [cp]
    exact outcome
  case vc16.post.except.handle st same msg st₁ =>
    subst same
    rintro rfl failed
    exact .unadmitted (Prod.ext rfl failed) msg

theorem Committing.attempt_ends (S : TierStore σ) (C : ControlPlanePort P) (st : Committing σ P) :
    Outcome S C st.session st.store st.cp (st.attempt S C).1.store (st.attempt S C).1.cp (st.attempt S C).2 := by
  obtain ⟨passes, fails⟩ := run_of_triple (commitThrough_ends (S := S) (C := C) st) rfl
  unfold Committing.attempt
  dsimp only
  cases result : ((commitThrough S C).run.run st).1 with
  | ok _ => exact passes _ result
  | error msg => exact fails msg result

end Attempts

end LakeKv
