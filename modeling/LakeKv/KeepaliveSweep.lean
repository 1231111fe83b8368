import LakeKv.FiniteMap
import LakeKv.Runs

namespace LakeKv

open Finmap List

/-- `made` is the number of the row's insertion. -/
structure KeepaliveRow where
  registeredAt : Int
  made : Nat
  deriving DecidableEq

/-- Where `sweep_once` stands with the record at hand: at its tests, between `has_keepalive` and the start of
`renew_once`, in `renew_once`, or before it deletes the row of a prefix that is gone. -/
inductive SweepStage
  | test
  | renew
  | renewing
  | gone
  deriving DecidableEq

/-- `left` are the records still to be dealt with, `since` the number of insertions before the snapshot. -/
structure Sweep (P : Type) where
  now : Int
  since : Nat
  left : List (P × KeepaliveRow)
  stage : SweepStage

inductive KeepaliveStep (P : Type)
  | register (p : P) (clock : Int)
  | unregister (p : P)
  | start (clock : Int)
  | list
  | sweep
  | renewed (present : Option Bool)

structure Keepalive (P : Type) [DecidableEq P] where
  rows : Map P KeepaliveRow
  made : Nat
  started : Option Int
  sweep : Option (Sweep P)

namespace Keepalive

variable {P : Type} [DecidableEq P]

def new : Keepalive P := ⟨∅, 0, none, none⟩

def advance (k : Keepalive P) (w : Sweep P) : Keepalive P :=
  { k with sweep := some { w with left := w.left.tail, stage := .test } }

/-- `ON CONFLICT` keeps `registered_at`. -/
def register (k : Keepalive P) (p : P) (clock : Int) : Keepalive P :=
  if p ∈ k.rows then k else { k with rows := k.rows.insert p ⟨clock, k.made⟩, made := k.made + 1 }

def unregister (k : Keepalive P) (p : P) : Keepalive P :=
  { k with rows := k.rows.erase p }

/-- The next step of `sweep_once`; `renew_once` returns in a step of its own. -/
def sweepStep (k : Keepalive P) (window : Int) (w : Sweep P) : Keepalive P :=
  match w.left with
  | [] => k
  | (p, r) :: _ =>
    match w.stage with
    | .test =>
      if window ≤ w.now - r.registeredAt then (k.unregister p).advance w
      else if p ∈ k.rows then { k with sweep := some { w with stage := .renew } }
      else k.advance w
    | .renew => { k with sweep := some { w with stage := .renewing } }
    | .renewing => k
    | .gone => (k.unregister p).advance w

/-- `none` is a `QueryError`, which skips the record. -/
def renewed (k : Keepalive P) (w : Sweep P) (present : Option Bool) : Keepalive P :=
  if w.stage = .renewing then
    if present = some false then { k with sweep := some { w with stage := .gone } } else k.advance w
  else k

/-- `entries` is the order in which the table is read. A sweep may start at any time: the one before it may have
failed. `remove` is its `unregister`. -/
def step (window : Int) (entries : Map P KeepaliveRow → List (P × KeepaliveRow)) (k : Keepalive P) :
    KeepaliveStep P → Keepalive P
  | .register p clock => k.register p clock
  | .unregister p => k.unregister p
  | .start clock => { k with started := some clock, sweep := none }
  | .list =>
    match k.started with
    | none => k
    | some now => { k with started := none, sweep := some ⟨now, k.made, entries k.rows, .test⟩ }
  | .sweep =>
    match k.sweep with
    | none => k
    | some w => k.sweepStep window w
  | .renewed present =>
    match k.sweep with
    | none => k
    | some w => k.renewed w present

/-- `renew_once` is started for the record in the next step of the sweep. -/
def Renews (k : Keepalive P) (w : Sweep P) (p : P) (r : KeepaliveRow) : Prop :=
  k.sweep = some w ∧ w.left.head? = some (p, r) ∧ w.stage = .renew

/-- The sweep deletes the row of the prefix in its next step. -/
def Deletes (window : Int) (k : Keepalive P) (w : Sweep P) (p : P) : Prop :=
  k.sweep = some w ∧ ∃ r, w.left.head? = some (p, r) ∧
    (w.stage = .test ∧ window ≤ w.now - r.registeredAt ∨ w.stage = .gone)

/-- No row is inserted for a prefix that the sweep has listed and not dealt with, and none is deleted between
`has_keepalive` and the start of `renew_once`. -/
def Undisturbed (k : Keepalive P) : KeepaliveStep P → Prop
  | .register p _ => p ∉ k.rows → ∀ w, k.sweep = some w → ∀ r, (p, r) ∉ w.left
  | .unregister p => ∀ w, k.sweep = some w → w.stage = .renew → ∀ r, w.left.head? ≠ some (p, r)
  | _ => True

structure Current (window : Int) (k : Keepalive P) : Prop where
  made : ∀ p r, k.rows.lookup p = some r → r.made < k.made
  listed : ∀ w, k.sweep = some w → ∀ p r, (p, r) ∈ w.left →
    r.made < w.since ∧ ∀ r', k.rows.lookup p = some r' → r' = r
  within : ∀ w, k.sweep = some w → w.stage = .renew → ∀ p r, w.left.head? = some (p, r) →
    k.rows.lookup p = some r ∧ w.now - r.registeredAt < window

variable {window : Int} {k : Keepalive P} {w : Sweep P} {p : P}

section

variable (h : Current window k)
include h

theorem Current.unregister (apart : ∀ w, k.sweep = some w → w.stage = .renew → ∀ r, w.left.head? ≠ some (p, r)) :
    Current window (k.unregister p) where
  made q r found := h.made q r (lookup_erase_some found).2
  listed w hw q r mem := ⟨(h.listed w hw q r mem).1, fun r' found =>
    (h.listed w hw q r mem).2 r' (lookup_erase_some found).2⟩
  within w hw stage q r head := by
    obtain ⟨found, within⟩ := h.within w hw stage q r head
    have other : q ≠ p := fun same => apart w hw stage r (same ▸ head)
    exact ⟨(lookup_erase_ne other).trans found, within⟩

theorem Current.register {clock : Int} (apart : p ∉ k.rows → ∀ w, k.sweep = some w → ∀ r, (p, r) ∉ w.left) :
    Current window (k.register p clock) := by
  unfold Keepalive.register
  split
  · exact h
  next fresh =>
    refine ⟨fun q r found => ?_, fun w hw q r mem => ⟨(h.listed w hw q r mem).1, fun r' found => ?_⟩,
      fun w hw stage q r head => ?_⟩
    · rcases lookup_insert_some found with ⟨rfl, rfl⟩ | ⟨-, found⟩
      · exact Nat.lt_succ_self _
      · exact Nat.lt_succ_of_lt (h.made q r found)
    · rcases lookup_insert_some found with ⟨rfl, -⟩ | ⟨-, found⟩
      · exact absurd mem (apart fresh w hw r)
      · exact (h.listed w hw q r mem).2 r' found
    · obtain ⟨found, within⟩ := h.within w hw stage q r head
      have other : q ≠ p := fun same => fresh (same ▸ mem_of_lookup_eq_some found)
      exact ⟨(lookup_insert_of_ne _ other).trans found, within⟩

variable (hw : k.sweep = some w)
include hw

theorem Current.goes {w' : Sweep P} (left : w'.left ⊆ w.left)
    (since : w'.since = w.since) (within : w'.stage = .renew → ∀ p r, w'.left.head? = some (p, r) →
      k.rows.lookup p = some r ∧ w'.now - r.registeredAt < window) :
    Current window { k with sweep := some w' } where
  made := h.made
  listed := by
    rintro _ ⟨⟩ p r mem
    rw [since]
    exact h.listed w hw p r (left mem)
  within := by
    rintro _ ⟨⟩
    exact within

theorem Current.advance : Current window (k.advance w) :=
  h.goes hw (tail_subset _) rfl nofun

theorem Current.sweepStep : Current window (k.sweepStep window w) := by
  -- The row of the record at hand may go unless the sweep is about to renew it.
  have drop {p : P} (stage : w.stage ≠ .renew) : Current window ((k.unregister p).advance w) := by
    refine Current.advance (h.unregister ?_) hw
    intro v hv renew
    cases hw.symm.trans hv
    exact absurd renew stage
  unfold Keepalive.sweepStep
  split
  · exact h
  next p r rest left =>
    split
    next stage =>
      split
      · exact drop (by rw [stage]; nofun)
      next early =>
        split
        next listed =>
          refine h.goes hw (Subset.refl _) rfl fun _ q r' head => ?_
          rw [left] at head
          cases head
          obtain ⟨held, found⟩ := mem_iff.mp listed
          have same := (h.listed w hw p r (left ▸ mem_cons_self)).2 held found
          exact ⟨same ▸ found, not_le.mp early⟩
        · exact h.advance hw
    · exact h.goes hw (Subset.refl _) rfl nofun
    · exact h
    next stage => exact drop (by rw [stage]; nofun)

end

variable {entries : Map P KeepaliveRow → List (P × KeepaliveRow)} {o : KeepaliveStep P}

theorem Current.step (lists : ∀ m p r, (p, r) ∈ entries m → m.lookup p = some r)
    (h : Current window k) (ok : k.Undisturbed o) : Current window (k.step window entries o) := by
  cases o with
  | register p clock => exact h.register ok
  | unregister p => exact h.unregister ok
  | start clock => exact ⟨h.made, nofun, nofun⟩
  | list =>
    simp only [Keepalive.step]
    split
    · exact h
    next now _ =>
      refine ⟨h.made, ?_, ?_⟩
      · rintro _ ⟨⟩ p r mem
        have found := lists _ p r mem
        exact ⟨h.made p r found, fun r' found' => Option.some.inj (found'.symm.trans found)⟩
      · rintro _ ⟨⟩
        nofun
  | sweep =>
    simp only [Keepalive.step]
    split
    · exact h
    next w hw => exact h.sweepStep hw
  | renewed present =>
    simp only [Keepalive.step]
    split
    · exact h
    next w hw =>
      unfold Keepalive.renewed
      split
      · split
        · exact h.goes hw (Subset.refl _) rfl nofun
        · exact h.advance hw
      · exact h

theorem step_rows {r : KeepaliveRow} (other : ∀ clock, o ≠ .register p clock)
    (found : (k.step window entries o).rows.lookup p = some r) : k.rows.lookup p = some r := by
  have erased (q : P) (found : (k.rows.erase q).lookup p = some r) := (lookup_erase_some found).2
  cases o with
  | register q clock => grind [step, register, lookup_insert_some]
  | unregister q => exact erased q found
  | start clock => exact found
  | list => grind [step]
  | sweep =>
    simp only [step, sweepStep] at found
    repeat' split at found
    all_goals first
      | exact found
      | exact erased _ found
  | renewed present => grind [step, Keepalive.renewed, Keepalive.advance]

/-- In every undisturbed run a renewal is started only for a row that is there, in a sweep that began within its
window, and a sweep deletes no row that was inserted after its snapshot. After `remove` has unregistered a prefix
no renewal is started for it until it is registered again. -/
theorem sweep_spares_registrations (lists : ∀ m p r, (p, r) ∈ entries m → m.lookup p = some r)
    (reached : Reach (step window entries) (· = new) Undisturbed k) :
    (∀ w p r, k.Renews w p r → k.rows.lookup p = some r ∧ w.now - r.registeredAt < window) ∧
      (∀ w p, k.Deletes window w p → ∀ r, k.rows.lookup p = some r → r.made < w.since) ∧
      ∀ p, k.Undisturbed (.unregister p) → ∀ l, Reach (step window entries) (· = k.unregister p)
        (fun k o => k.Undisturbed o ∧ ∀ clock, o ≠ .register p clock) l → ∀ w r, ¬l.Renews w p r := by
  have current : Current window k := by
    refine reached.invariant (fun k start => ?_) fun k o h ok => h.step lists ok
    subst start
    exact ⟨nofun, nofun, nofun⟩
  refine ⟨fun w p r renews => current.within w renews.1 renews.2.2 p r renews.2.1, ?_, ?_⟩
  · rintro w p ⟨hw, r, head, -⟩ r' found
    obtain ⟨made, same⟩ := current.listed w hw p r (mem_of_mem_head? head)
    exact same r' found ▸ made
  · intro p free l later
    -- The invariant goes on, and the row stays away.
    have kept : Current window l ∧ ∀ r, l.rows.lookup p ≠ some r := by
      induction later with
      | start same => exact same ▸ ⟨current.unregister free, fun r found => (lookup_erase_some found).1 rfl⟩
      | next _ ok ih => exact ⟨ih.1.step lists ok.1, fun r found => ih.2 r (step_rows ok.2 found)⟩
    exact fun w r renews => kept.2 r (kept.1.within w renews.1 renews.2.2 p r renews.2.1).1

/-- The row of the prefix 0. -/
def sampleEntries (m : Map Nat KeepaliveRow) : List (Nat × KeepaliveRow) :=
  ((m.lookup 0).map (0, ·)).toList

theorem sampleEntries_lists (m : Map Nat KeepaliveRow) (p : Nat) (r : KeepaliveRow) (mem : (p, r) ∈ sampleEntries m) :
    m.lookup p = some r := by
  obtain ⟨r', found, same⟩ := Option.map_eq_some_iff.mp (Option.mem_toList.mp mem)
  cases same
  exact found

def sampleRun (os : List (KeepaliveStep Nat)) : Keepalive Nat :=
  os.foldl (step 10 sampleEntries) new

theorem sweep_spares_registrations_one :
    ∃ k w, k = sampleRun [.register 0 0, .start 1, .list, .sweep] ∧ k.Renews w 0 ⟨0, 0⟩ ∧
      k.rows.lookup 0 = some ⟨0, 0⟩ ∧ w.now - 0 < 10 := by
  have allowed : Reach.Allowed (step 10 sampleEntries) Undisturbed new [.register 0 0, .start 1, .list, .sweep] :=
    ⟨fun _ _ => nofun, trivial, trivial, trivial, trivial⟩
  have started : Reach (step 10 sampleEntries) (· = new) Undisturbed new := .start rfl
  have renews := (sweep_spares_registrations sampleEntries_lists (started.foldl allowed)).1
    ⟨1, 1, [(0, ⟨0, 0⟩)], .renew⟩ 0 ⟨0, 0⟩ ⟨rfl, rfl, rfl⟩
  exact ⟨_, ⟨1, 1, [(0, ⟨0, 0⟩)], .renew⟩, rfl, ⟨rfl, rfl, rfl⟩, renews⟩

/-- The row is deleted after the tests of the sweep; another sweep deletes the row of a new registration. -/
theorem sweep_meets_unregister :
    (∃ k w, k = sampleRun [.register 0 0, .start 1, .list, .sweep, .unregister 0] ∧ k.Renews w 0 ⟨0, 0⟩ ∧
      k.rows.lookup 0 = none) ∧
    ∃ k w, k = sampleRun [.register 0 0, .start 20, .list, .unregister 0, .register 0 20] ∧ k.Deletes 10 w 0 ∧
      k.rows.lookup 0 = some ⟨20, w.since⟩ :=
  ⟨⟨_, ⟨1, 1, [(0, ⟨0, 0⟩)], .renew⟩, rfl, ⟨rfl, rfl, rfl⟩, rfl⟩,
    _, ⟨20, 1, [(0, ⟨0, 0⟩)], .test⟩, rfl, ⟨rfl, ⟨0, 0⟩, rfl, .inl ⟨rfl, by decide⟩⟩, rfl⟩

end Keepalive

end LakeKv
