import LakeKv.KeyedBlocks

namespace LakeKv

open Finmap Function List PoolAction View

variable {B : Backend}

def Entry.shown (e : Entry B) : BlockView :=
  (e.blockMeta.locations, e.blockMeta.l3Present)

def PoolView.shown (p : PoolView B) : Flat → Option BlockView :=
  fun f => (p.byFlat.lookup f).map Entry.shown

namespace View

def withPool (v : View) (key : NamespaceKey) (pk : Int) (g : Flat → Option BlockView) : View :=
  fun k => if k.ns = key ∧ k.poolKind = pk then g k.flat else v k

def Files (key : NamespaceKey) (pk : Int) (f : Flat) (id : KvBlockId) : Prop :=
  keyOf id = ⟨key.modelId, key.revision, pk, f⟩

theorem files_publicId (key : NamespaceKey) (pk : Int) (f : Flat) : Files key pk f (publicId key pk f) := rfl

variable {v : View} {key : NamespaceKey} {pk : Int} {f : Flat} {id : KvBlockId}
  {g : Flat → Option BlockView}

theorem update_withPool (x : Option BlockView) :
    update (v.withPool key pk g) ⟨key.modelId, key.revision, pk, f⟩ x = v.withPool key pk (update g f x) := by
  funext k
  obtain ⟨km, kr, kp, kf⟩ := k
  obtain ⟨m, r⟩ := key
  simp only [withPool, update_apply, BlockKey.ns, NamespaceKey.mk.injEq, BlockKey.mk.injEq]
  by_cases hpool : (km = m ∧ kr = r) ∧ kp = pk
  · obtain ⟨⟨rfl, rfl⟩, rfl⟩ := hpool
    simp
  · rw [if_neg hpool, if_neg hpool, if_neg fun hc => hpool ⟨⟨hc.1, hc.2.1⟩, hc.2.2.1⟩]

theorem applyEvent_upsert (hid : Files key pk f id) {kind : ViewKind} (hkind : kind ≠ .invalidated)
    (locations : List Location) (l3 : Bool) (blockKind : Int) :
    (v.withPool key pk g).applyEvent (upsertEvent kind id locations l3 blockKind) =
      v.withPool key pk (update g f (some (locations, l3))) := by
  have hev : (v.withPool key pk g).applyEvent (upsertEvent kind id locations l3 blockKind) =
      update (v.withPool key pk g) (keyOf id) (if kind = .invalidated then none else some (locations, l3)) := rfl
  rw [hev, if_neg hkind, show keyOf id = _ from hid, update_withPool]

theorem applyEvent_invalidated (hid : Files key pk f id) : (v.withPool key pk g).applyEvent (invalidatedEvent id) =
      v.withPool key pk (update g f none) := by
  have hev : (v.withPool key pk g).applyEvent (invalidatedEvent id) = update (v.withPool key pk g) (keyOf id) none := rfl
  rw [hev, show keyOf id = _ from hid, update_withPool]

end View

theorem Entry.Keyed.files {key : NamespaceKey} {pk : Int} {f : Flat} {e : Entry B} (h : e.Keyed key pk f) :
    View.Files key pk f (e.blockMeta.id.getD (publicId key pk f)) := by
  obtain ⟨id, hid, rfl, rfl, rfl⟩ := h.id
  rw [hid]
  rfl

namespace PoolView

variable {p q : PoolView B} {key : NamespaceKey} {pk : Int} {v : View}

def Carries (key : NamespaceKey) (pk : Int) (p q : PoolView B) (es : List ViewEvent) : Prop :=
  ∀ v : View, (v.withPool key pk p.shown).applyEvents es = v.withPool key pk q.shown

theorem Carries.nil (h : q.shown = p.shown) : Carries key pk p q [] := by
  intro v
  rw [h]
  rfl

theorem Carries.append {r : PoolView B} {es fs : List ViewEvent} (h : Carries key pk p q es)
    (h' : Carries key pk q r fs) : Carries key pk p r (es ++ fs) := by
  intro v
  rw [applyEvents_append, h v, h' v]

theorem shown_of_byFlat (h : q.byFlat = p.byFlat) : q.shown = p.shown := by
  funext f
  simp [shown, h]

variable {flat : Flat} {e : Entry B}

theorem shown_insert (h : q.byFlat = p.byFlat.insert flat e) : q.shown = update p.shown flat (some e.shown) := by
  funext f
  simp only [shown, h, lookup_insert_if, update_apply]
  split <;> rfl

theorem shown_erase (h : q.byFlat = p.byFlat.erase flat) : q.shown = update p.shown flat none := by
  funext f
  simp only [shown, h, lookup_erase_if, update_apply]
  split <;> rfl

theorem Carries.upsert {id : KvBlockId} (hid : View.Files key pk flat id)
    (h : q.byFlat = p.byFlat.insert flat e) {kind : ViewKind} (hkind : kind ≠ .invalidated) (blockKind : Int) :
    Carries key pk p q [upsertEvent kind id e.blockMeta.locations e.blockMeta.l3Present blockKind] := by
  intro v
  rw [shown_insert h]
  exact applyEvent_upsert hid hkind _ _ _

theorem Carries.invalidate {id : KvBlockId} (hid : View.Files key pk flat id)
    (h : q.byFlat = p.byFlat.erase flat) : Carries key pk p q [invalidatedEvent id] := by
  intro v
  rw [shown_erase h]
  exact applyEvent_invalidated hid

theorem Carries.moved (hkey : e.Keyed key pk flat)
    (h : q.byFlat = p.byFlat.insert flat e) : Carries key pk p q (q.movedEvent key pk flat) := by
  have hlookup : q.byFlat.lookup flat = some e := by rw [h, lookup_insert]
  rw [movedEvent, hlookup]
  exact .upsert hkey.files h (by decide) 0

theorem carries_dropInactiveVictims (p : PoolView B) (n : Nat) : Carries key pk p (p.dropInactiveVictims n).1
      (invalidatedEventsFor key ((p.dropInactiveVictims n).2.map fun r => (pk, r.1, r.2))) := by
  have hone : ∀ (q : PoolView B) seq, Carries key pk q (q.dropVictim seq).1
      (invalidatedEventsFor key ((q.dropVictim seq).2.map fun r => (pk, r.1, r.2))) := by
    intro q seq
    unfold dropVictim
    split
    · exact .nil rfl
    dsimp only
    split
    · exact .nil (shown_of_byFlat rfl)
    next flat _ => exact .invalidate (files_publicId key pk flat) rfl
  have hloop : ∀ (vs : List (B.Seq × BlockId)) (q : PoolView B), Carries key pk q (q.dropVictims vs).1
      (invalidatedEventsFor key ((q.dropVictims vs).2.map fun r => (pk, r.1, r.2))) := by
    intro vs
    induction vs with
    | nil => exact fun _ => .nil rfl
    | cons w ws ih =>
      intro q
      have hboth := (hone q w.1).append (ih (q.dropVictim w.1).1)
      simpa [dropVictims, invalidatedEventsFor, comp_def] using hboth
  exact fun v => hloop _ { p with inactive := (B.allocate p.inactive n).2 } v

theorem carries_registerAll (placed : List (PlacedBlock B)) (hfits : ∀ b ∈ placed, b.Fits key pk)
    (p : PoolView B) : Carries key pk p (p.registerAll placed).1 (p.registerAll placed).2.1 := by
  induction placed generalizing p with
  | nil => exact .nil rfl
  | cons b bs ih =>
    have hb := hfits b mem_cons_self
    have hid : View.Files key pk b.id.blockHash b.id := by
      rw [View.Files, keyOf, ← hb.ns, hb.kind]
      rfl
    have hkind : (if b.id.blockHash ∈ p.byFlat then ViewKind.moved else .registered) ≠ .invalidated := by
      split <;> decide
    have hone : Carries key pk p (p.registerPlaced b) [p.placedEvent b] :=
      .upsert (e := ⟨b.seq, b.blockMeta, ((p.byFlat.lookup b.id.blockHash).map Entry.blockId).getD
        p.nextBlockId, b.chain⟩) hid rfl hkind _
    exact hone.append (ih (fun c hc => hfits c (mem_cons_of_mem _ hc)) _)

/-- The first loop of `gc_cold`: its events carry the view to `h`, which is behind the pool only at the
blocks that the second loop is to remove. -/
structure GcBehind (key : NamespaceKey) (pk : Int) (p : PoolView B) (g : GcPass B) (h : Flat → Option BlockView) :
    Prop where
  carried : ∀ v : View, (v.withPool key pk p.shown).applyEvents g.events = v.withPool key pk h
  shown : ∀ f, f ∉ g.fullRemove.map (fun r => r.2.1) → h f = g.pool.shown f
  keyed : ∀ f e, g.pool.byFlat.lookup f = some e → e.Keyed key pk f
  files : ∀ r ∈ g.fullRemove, View.Files key pk r.2.1 r.2.2
  there : ∀ r ∈ g.fullRemove, r.2.1 ∈ g.pool.byFlat

theorem GcBehind.victim {g : GcPass B} {h : Flat → Option BlockView} (hg : GcBehind key pk p g h)
    (w : B.Seq × BlockId) : ∃ h', GcBehind key pk p (GcPass.victim key pk g w) h' := by
  unfold GcPass.victim
  split
  · exact ⟨h, hg⟩
  split
  · exact ⟨h, hg⟩
  next flat _ =>
    split
    · exact ⟨h, hg⟩
    next e he =>
      have hby := g.pool.peel_byFlat flat w.1 e
      have hid := (hg.keyed flat e he).files
      have hkeyed : ∀ f e', (g.pool.peel flat w.1 e).byFlat.lookup f = some e' → e'.Keyed key pk f := by
        intro f e' he'
        rw [hby, lookup_insert_if] at he'
        split at he'
        next hf =>
          cases he'
          exact hf ▸ (hg.keyed flat e he).of_sameBlock ⟨rfl, rfl, rfl, rfl⟩
        · exact hg.keyed f e' he'
      have hthere : ∀ f, f = flat ∨ f ∈ g.pool.byFlat → f ∈ (g.pool.peel flat w.1 e).byFlat := by
        intro f hf
        rw [hby]
        exact mem_insert.mpr hf
      have hshown := shown_insert hby
      dsimp only
      split
      · refine ⟨update h flat (some (peelLocations e.blockMeta.locations, e.blockMeta.l3Present)),
          fun v => ?_, fun f hf => ?_, hkeyed, hg.files, fun r hr => ?_⟩
        · rw [applyEvents_append, hg.carried v]
          exact applyEvent_upsert hid (by decide) _ _ _
        · rw [hshown, update_apply, update_apply]
          split
          · rfl
          · exact hg.shown f hf
        · exact hthere _ (.inr (hg.there r hr))
      refine ⟨h, hg.carried, fun f hf => ?_, hkeyed, fun r hr => ?_, fun r hr => ?_⟩
      · rw [map_append, mem_append, not_or] at hf
        have hne : f ≠ flat := by simpa using hf.2
        rw [hshown, update_of_ne hne]
        exact hg.shown f hf.1
      · rcases mem_append.mp hr with hr | hr
        · exact hg.files r hr
        · cases List.mem_singleton.mp hr
          exact hid
      · rcases mem_append.mp hr with hr | hr
        · exact hthere _ (.inr (hg.there r hr))
        · cases List.mem_singleton.mp hr
          exact hthere flat (.inl rfl)

theorem carries_removeAll (rs : List (B.Seq × Flat × KvBlockId)) (hfiles : ∀ r ∈ rs, View.Files key pk r.2.1 r.2.2)
    (q : PoolView B) (h : Flat → Option BlockView)
    (hbehind : ∀ f, f ∉ rs.map (fun r => r.2.1) ∨ f ∉ q.byFlat → h f = q.shown f) (v : View) :
    (v.withPool key pk h).applyEvents ((GcPass.removeAll q rs).2.map invalidatedEvent) =
      v.withPool key pk (GcPass.removeAll q rs).1.shown := by
  induction rs generalizing q h with
  | nil =>
    have hsame : h = q.shown := funext fun f => hbehind f (.inl (by simp))
    rw [hsame]
    rfl
  | cons r rs ih =>
    have hrest := fun x hx => hfiles x (mem_cons_of_mem r hx)
    unfold GcPass.removeAll
    split
    next hnone =>
      refine ih hrest q h fun f hf => ?_
      rcases hf with hf | hf
      · by_cases hr : f = r.2.1
        · exact hbehind f (.inr (hr ▸ lookup_eq_none.mp hnone))
        · exact hbehind f (.inl (by simpa [hr] using hf))
      · exact hbehind f (.inr hf)
    next e he =>
      have hshown : (q.removeCold r.1 r.2.1 e).shown = update q.shown r.2.1 none := shown_erase rfl
      have hnext := ih hrest (q.removeCold r.1 r.2.1 e) (update h r.2.1 none) fun f hf => ?_
      · dsimp only
        rw [map_cons]
        have hfirst := applyEvent_invalidated (v := v) (g := h) (hfiles r mem_cons_self)
        exact (congrArg (fun w => applyEvents w _) hfirst).trans hnext
      · rw [hshown, update_apply, update_apply]
        split
        · rfl
        next hne =>
          refine hbehind f (hf.imp (fun hf => by simpa [hne] using hf) fun hf hm => hf ?_)
          have hmem : f ∈ q.byFlat.erase r.2.1 := mem_erase.mpr ⟨hne, hm⟩
          exact hmem

theorem carries_gcCold (hkeyed : ∀ f e, p.byFlat.lookup f = some e → e.Keyed key pk f) (n : Nat) :
    Carries key pk p (p.gcCold key pk n).pool (p.gcCold key pk n).events := by
  obtain ⟨h, hg⟩ : ∃ h, GcBehind key pk p (GcPass.collect key pk p n) h :=
    GcPass.collect_induct (J := fun _ g => ∃ h, GcBehind key pk p g h) key pk
      ⟨p.shown, fun _ => rfl, fun _ _ => rfl, hkeyed, by simp, by simp⟩ fun _ _ w _ ⟨_, hg⟩ => hg.victim w
  intro v
  have hback : ∀ (ws : List (B.Seq × BlockId)) (q : PoolView B), (ws.foldl reinsertCold q).shown = q.shown := by
    intro ws
    induction ws with
    | nil => exact fun _ => rfl
    | cons w ws ih => exact fun q => (ih _).trans (shown_of_byFlat (q.reinsertCold_frame w).2)
  simp only [PoolView.gcCold]
  rw [applyEvents_append, hg.carried v, hback]
  refine carries_removeAll _ hg.files _ h (fun f hf => hg.shown f ?_) v
  rcases hf with hf | hf
  · exact hf
  · intro hm
    obtain ⟨r, hr, rfl⟩ := mem_map.mp hm
    exact hf (hg.there r hr)

theorem carries_stripFlat (p : PoolView B) (node : String) (flat : Flat) :
    Carries key pk p (stripFlat key pk node p flat).1 (stripFlat key pk node p flat).2 := by
  unfold stripFlat
  split
  · exact .nil rfl
  next e he =>
    split
    · exact .nil rfl
    have hby := markAbsent_byFlat (p.setMeta flat e { e.blockMeta with
      locations := e.blockMeta.locations.filter fun l => ¬(l.tier = Tier.l0.toWire ∧ l.nodeId = node) })
      e.seqHash .tierL0
    intro v
    exact Carries.upsert (files_publicId key pk flat) hby (by decide) 0 v

/-- What an action on one pool reports is what it changes. A strip has to be meant for this pool. -/
theorem carries_apply {act : PoolAction B} (hquiet : act.quiet = true) (guard : act.Guard p)
    (hstrip : ∀ key' pk' node flat, act = .strip key' pk' node flat → key' = key ∧ pk' = pk)
    (hkeyed : ∀ f e, p.byFlat.lookup f = some e → e.Keyed key pk f) :
    Carries key pk p (act.apply p) (act.events key pk p) := by
  cases act with
  | evict | register | discard | gcCold => simp [quiet] at hquiet
  | setRef flat e kind value =>
    refine .nil (shown_of_byFlat ?_)
    rw [apply, setRef_eq]
  | touchRefs flat e => exact .nil (shown_of_byFlat rfl)
  | strip key' pk' node flat =>
    obtain ⟨rfl, rfl⟩ := hstrip key' pk' node flat rfl
    exact carries_stripFlat p node flat
  | clearMarks node => exact .nil (shown_of_byFlat rfl)
  | publish flat e tier node seg off present =>
    have hby := publish_byFlat tier node seg off present guard.1
    simp only [events]
    split
    · refine .moved ?_ hby
      exact (hkeyed flat e guard.1).of_sameBlock ⟨rfl, rfl, rfl, rfl⟩
    next hsame =>
      -- Nothing is published and nothing was there to withdraw.
      rw [Bool.not_eq_true, Bool.or_eq_false_iff] at hsame
      obtain ⟨rfl, hhad⟩ := hsame
      refine .nil (shown_of_byFlat ?_)
      simp [apply, PoolView.publish, hhad]
  | setL3 flat e present =>
    refine .moved ?_ rfl
    exact (hkeyed flat e guard).of_sameBlock ⟨rfl, rfl, rfl, rfl⟩
  | relocate flat e tier node seg off =>
    refine .moved ?_ (p.relocate_byFlat flat e tier node seg off)
    exact (hkeyed flat e guard).of_sameBlock ⟨rfl, rfl, rfl, rfl⟩
  | touchHits | markPlaced | recordHit => exact .nil (shown_of_byFlat rfl)

end PoolView

end LakeKv
