import LakeKv.FiniteMap
import LakeKv.Runs

namespace LakeKv

open Finmap List Option

/-! Which segment belongs to which rank of a worker: the ports its processes listen on, crossed with the segments
that the store has. -/

/-- A segment is named `host:port`. -/
structure Segment where
  host : String
  port : String
  port_plain : ':' ∉ port.toList
  deriving DecidableEq

def Segment.name (s : Segment) : String :=
  s.host ++ ":" ++ s.port

/-- A process with its rank, if its title has one, and the ports it listens on. -/
structure ProbeRow where
  pid : Int
  rank : Option Int
  ports : List Int

/-- The texts of a `ResolveError`, by what stands in them. -/
inductive ResolveError
  | severalSegments (port pid : Int) (found : List Segment)
  | twoSegments (rank : Int) (first second : Segment)
  | notPinned (candidates : List (Int × Segment))
  | noRank (candidates : List (Int × Segment))
  | unresolved (rank : Nat) (resolved : Map Int Segment)

/-- What the loops of `intersect_rank_seg` gather. -/
structure RankClaims where
  rankSeg : Map Int Segment
  unknown : List (Int × Segment)

namespace RankClaims

variable (segs : List Segment) (targetIp : String)

def onPort (port : Int) (s : Segment) : Bool :=
  s.port == toString port && (targetIp == "" || (targetIp ++ ":").toList.isPrefixOf s.name.toList)

def claimPort (pid : Int) (rank : Option Int) (c : RankClaims) (port : Int) : Except ResolveError RankClaims :=
  match segs.filter (onPort targetIp port) with
  | [] => .ok c
  | [seg] =>
    match rank with
    | none => .ok { c with unknown := c.unknown ++ [(pid, seg)] }
    | some r =>
      match c.rankSeg.lookup r with
      | none => .ok { c with rankSeg := c.rankSeg.insert r seg }
      | some held =>
        if held = seg then .ok { c with rankSeg := c.rankSeg.insert r seg } else .error (.twoSegments r held seg)
  | several => .error (.severalSegments port pid several)

def claimRow (c : RankClaims) (row : ProbeRow) : Except ResolveError RankClaims :=
  row.ports.foldlM (claimPort segs targetIp row.pid row.rank) c

/-- With one rank, a single candidate without a rank is it. -/
def pinSingle (tp : Nat) (c : RankClaims) : Except ResolveError RankClaims :=
  if tp = 1 ∧ 0 ∉ c.rankSeg then
    match c.unknown with
    | [(_, seg)] => .ok ⟨c.rankSeg.insert 0 seg, []⟩
    | candidates => .error (.notPinned candidates)
  else .ok c

def rankOrder (tp : Nat) (c : RankClaims) : Except ResolveError (List Segment) :=
  if 1 < tp ∧ c.unknown ≠ [] then .error (.noRank c.unknown)
  else (List.range tp).mapM fun (i : Nat) =>
    match c.rankSeg.lookup (i : Int) with
    | some seg => .ok seg
    | none => .error (.unresolved i c.rankSeg)

end RankClaims

def intersectRankSeg (segs : List Segment) (rows : List ProbeRow) (tp : Nat) (targetIp : String) :
    Except ResolveError (List Segment) := do
  let c ← rows.foldlM (RankClaims.claimRow segs targetIp) ⟨∅, []⟩
  let c ← RankClaims.pinSingle tp c
  RankClaims.rankOrder tp c

namespace RankClaims

variable {segs : List Segment} {targetIp : String}

/-- The ports of all rows, each with the process and its rank. -/
def probes (rows : List ProbeRow) : List (Int × Option Int × Int) :=
  rows.flatMap fun row => row.ports.map fun port => (row.pid, row.rank, port)

def gather (segs : List Segment) (targetIp : String) (c : RankClaims) (ps : List (Int × Option Int × Int)) :
    Except ResolveError RankClaims :=
  ps.foldlM (fun c p => claimPort segs targetIp p.1 p.2.1 c p.2.2) c

theorem foldlM_claimRow (rows : List ProbeRow) (c : RankClaims) :
    rows.foldlM (claimRow segs targetIp) c = gather segs targetIp c (probes rows) := by
  induction rows generalizing c with
  | nil => rfl
  | cons row rows ih =>
    rw [foldlM_cons, gather, probes, flatMap_cons, foldlM_append, foldlM_map]
    exact congrArg _ (funext ih)

theorem gather_concat (c : RankClaims) (ps : List (Int × Option Int × Int)) (p : Int × Option Int × Int) :
    gather segs targetIp c (ps ++ [p]) =
      gather segs targetIp c ps >>= fun c => claimPort segs targetIp p.1 p.2.1 c p.2.2 := by
  rw [gather, foldlM_append]
  exact congrArg _ (funext fun c => bind_pure _)

def unranked (segs : List Segment) (targetIp : String) (ps : List (Int × Option Int × Int)) : List (Int × Segment) :=
  ps.flatMap fun p => if p.2.1 = none then (segs.filter (onPort targetIp p.2.2)).map fun seg => (p.1, seg) else []

/-- What the loops have gathered from some probes. -/
structure Gathers (segs : List Segment) (targetIp : String) (ps : List (Int × Option Int × Int)) (c : RankClaims) :
    Prop where
  single : ∀ p ∈ ps, (segs.filter (onPort targetIp p.2.2)).length ≤ 1
  ranked : ∀ r seg, c.rankSeg.lookup r = some seg ↔
    ∃ p ∈ ps, p.2.1 = some r ∧ seg ∈ segs.filter (onPort targetIp p.2.2)
  unknown : c.unknown = unranked segs targetIp ps

variable {ps : List (Int × Option Int × Int)} {p : Int × Option Int × Int} {c : RankClaims} {c' : RankClaims}

theorem Gathers.agree (h : Gathers segs targetIp ps c) {p q : Int × Option Int × Int} (hp : p ∈ ps) (hq : q ∈ ps)
    {r : Int} (hr : p.2.1 = some r) (hr' : q.2.1 = some r) {seg seg' : Segment}
    (hseg : seg ∈ segs.filter (onPort targetIp p.2.2)) (hseg' : seg' ∈ segs.filter (onPort targetIp q.2.2)) :
    seg = seg' := by
  have first := (h.ranked r seg).mpr ⟨p, hp, hr, hseg⟩
  have second := (h.ranked r seg').mpr ⟨q, hq, hr', hseg'⟩
  exact some.inj (first.symm.trans second)

theorem gathers_claimPort (h : Gathers segs targetIp ps c)
    (claimed : claimPort segs targetIp p.1 p.2.1 c p.2.2 = .ok c') : Gathers segs targetIp (ps ++ [p]) c' := by
  obtain ⟨pid, rank, port⟩ := p
  -- One more probe: how many segments it meets, what is claimed for ranks, and what without.
  have more (hone : (segs.filter (onPort targetIp port)).length ≤ 1) (hranked : ∀ r seg, c'.rankSeg.lookup r = some seg ↔
        c.rankSeg.lookup r = some seg ∨ rank = some r ∧ seg ∈ segs.filter (onPort targetIp port))
      (hunknown : c'.unknown = c.unknown ++ unranked segs targetIp [(pid, rank, port)]) :
      Gathers segs targetIp (ps ++ [(pid, rank, port)]) c' := by
    refine ⟨?_, fun r seg => ?_, ?_⟩
    · intro q hq
      rcases mem_append.mp hq with hq | hq
      · exact h.single q hq
      · cases mem_singleton.mp hq
        exact hone
    · rw [hranked, h.ranked]
      simp only [mem_append, List.mem_singleton, or_and_right, exists_or, exists_eq_left]
    · rw [hunknown, h.unknown, unranked, unranked, unranked, flatMap_append]
  revert claimed
  fun_cases claimPort segs targetIp pid rank c port
  case case1 hnone =>
    rintro ⟨⟩
    refine more (by simp [hnone]) (fun r seg => ?_) ?_
    · simp [hnone]
    · simp [unranked, hnone]
  case case2 seg hone =>
    rintro ⟨⟩
    refine more (by simp [hone]) (fun r seg => ?_) ?_
    · simp
    · simp [unranked, hone]
  case case3 seg hone r hr =>
    rintro ⟨⟩
    refine more (by simp [hone]) (fun r' seg' => ?_) ?_
    · rw [lookup_insert_if, hone]
      by_cases hrr : r' = r
      · subst hrr
        simp [hr, eq_comm]
      · simp [hrr, Ne.symm hrr]
    · simp [unranked]
  case case4 r held hr hone =>
    rintro ⟨⟩
    refine more (by simp [hone]) (fun r' seg' => ?_) ?_
    · rw [insert_of_lookup hr, hone]
      constructor
      · exact .inl
      · rintro (h | ⟨⟨⟩, hseg⟩)
        · exact h
        · rw [hr, mem_singleton.mp hseg]
    · simp [unranked]
  all_goals rintro ⟨⟩

theorem gathers_of_ok (gathered : gather segs targetIp ⟨∅, []⟩ ps = .ok c) : Gathers segs targetIp ps c := by
  induction ps using reverseRecOn generalizing c with
  | nil =>
    cases gathered
    exact ⟨by simp, by simp, rfl⟩
  | append_singleton ps p ih =>
    rw [gather_concat] at gathered
    obtain ⟨c₀, hps, gathered⟩ := bind_eq_ok gathered
    exact gathers_claimPort (ih hps) gathered

theorem ok_of_agree (single : ∀ p ∈ ps, (segs.filter (onPort targetIp p.2.2)).length ≤ 1)
    (agree : ∀ p ∈ ps, ∀ q ∈ ps, ∀ r seg seg', p.2.1 = some r → q.2.1 = some r →
      seg ∈ segs.filter (onPort targetIp p.2.2) → seg' ∈ segs.filter (onPort targetIp q.2.2) → seg = seg') :
    ∃ c, gather segs targetIp ⟨∅, []⟩ ps = .ok c := by
  induction ps using reverseRecOn with
  | nil => exact ⟨_, rfl⟩
  | append_singleton ps p ih =>
    obtain ⟨c, hc⟩ := ih (fun q hq => single q (mem_append_left _ hq)) fun q hq q' hq' =>
      agree q (mem_append_left _ hq) q' (mem_append_left _ hq')
    have hp : p ∈ ps ++ [p] := mem_append_right _ (mem_singleton.mpr rfl)
    have hgathers := gathers_of_ok hc
    obtain ⟨c', hc'⟩ : ∃ c', claimPort segs targetIp p.1 p.2.1 c p.2.2 = .ok c' := by
      obtain ⟨pid, rank, port⟩ := p
      fun_cases claimPort segs targetIp pid rank c port
      case case5 seg hseg r held hheld hne =>
        obtain ⟨q, hq, hqr, hqseg⟩ := (hgathers.ranked r held).mp hheld
        have hmem : seg ∈ segs.filter (onPort targetIp port) := by simp [hseg]
        exact absurd (agree q (mem_append_left _ hq) _ hp r held seg hqr rfl hqseg hmem) hne
      case case6 hnil hone =>
        have hle : (segs.filter (onPort targetIp port)).length ≤ 1 := single _ hp
        match hfound : segs.filter (onPort targetIp port) with
        | [] => exact absurd hfound hnil
        | [seg] => exact (hone seg hfound).elim
        | _ :: _ :: _ => simp [hfound] at hle
      all_goals exact ⟨_, rfl⟩
    refine ⟨c', ?_⟩
    rw [gather_concat, hc]
    exact hc'

/-- What the loops gather does not depend on the order of the probes, but for the order of the candidates. -/
theorem gathered_perm {ps' : List (Int × Option Int × Int)} (perm : ps.Perm ps')
    (gathered : gather segs targetIp ⟨∅, []⟩ ps = .ok c) : ∃ c', gather segs targetIp ⟨∅, []⟩ ps' = .ok c' ∧
      c'.rankSeg = c.rankSeg ∧ c.unknown.Perm c'.unknown := by
  have h := gathers_of_ok gathered
  obtain ⟨c', hc'⟩ : ∃ c', gather segs targetIp ⟨∅, []⟩ ps' = .ok c' :=
    ok_of_agree (fun p hp => h.single p (perm.mem_iff.mpr hp)) fun p hp q hq r seg seg' hr hr' =>
      h.agree (perm.mem_iff.mpr hp) (perm.mem_iff.mpr hq) hr hr'
  have h' := gathers_of_ok hc'
  refine ⟨c', hc', ext_lookup fun r => Option.ext fun seg => ?_, ?_⟩
  · simp only [← Option.mem_def]
    rw [Option.mem_def, Option.mem_def, h.ranked, h'.ranked]
    simp only [perm.mem_iff]
  · rw [h.unknown, h'.unknown]
    exact perm.flatMap_right _

theorem rankOrder_ok {tp : Nat} {out : List Segment} (ordered : rankOrder tp c = .ok out) : out.length = tp ∧
    ∀ (i : Nat) seg, out[i]? = some seg ↔ i < tp ∧ c.rankSeg.lookup (i : Int) = some seg := by
  rw [rankOrder] at ordered
  split at ordered
  · cases ordered
  obtain ⟨hlength, hget⟩ := forall₂_iff_get.mp (forall₂_of_mapM ordered)
  rw [length_range] at hlength
  have hat : ∀ (i : Nat) (hi : i < out.length), c.rankSeg.lookup (i : Int) = some out[i] := by
    intro i hi
    have hi' := hget i (by simpa [hlength] using hi) hi
    simp only [get_eq_getElem, getElem_range] at hi'
    split at hi'
    next seg hseg =>
      rw [getElem_range] at hseg
      rw [hseg, Except.ok.inj hi']
    · cases hi'
  refine ⟨hlength.symm, fun i seg => ⟨fun hi => ?_, ?_⟩⟩
  · obtain ⟨hlt, rfl⟩ := List.getElem?_eq_some_iff.mp hi
    exact ⟨hlength ▸ hlt, hat i hlt⟩
  · rintro ⟨hi, hseg⟩
    rw [hlength] at hi
    rw [getElem?_eq_getElem hi, ← hseg, hat i hi]

theorem decided_cases {tp : Nat} {out : List Segment} (decided : (pinSingle tp c >>= rankOrder tp) = .ok out) :
    (∃ pid seg, tp = 1 ∧ 0 ∉ c.rankSeg ∧ c.unknown = [(pid, seg)] ∧ out = [seg]) ∨ out.length = tp ∧
      ∀ (i : Nat) seg, out[i]? = some seg ↔ i < tp ∧ c.rankSeg.lookup (i : Int) = some seg := by
  rw [pinSingle] at decided
  split at decided
  next hpin =>
    split at decided
    next pid seg hone =>
      obtain ⟨hlength, hget⟩ := rankOrder_ok decided
      have hfirst : out[0]? = some seg := (hget 0 seg).mpr ⟨by omega, lookup_insert _⟩
      obtain ⟨seg', rfl⟩ := length_eq_one_iff.mp (hlength.trans hpin.1)
      exact .inl ⟨pid, seg, hpin.1, hpin.2, hone, congrArg ([·]) (some.inj hfirst)⟩
    · cases decided
  · exact .inr (rankOrder_ok decided)

theorem decided_perm {tp : Nat} (ranks : c'.rankSeg = c.rankSeg) (perm : c.unknown.Perm c'.unknown)
    {out : List Segment} (decided : (pinSingle tp c >>= rankOrder tp) = .ok out) :
    (pinSingle tp c' >>= rankOrder tp) = .ok out := by
  rw [pinSingle] at decided ⊢
  rw [ranks]
  split at decided
  next hpin =>
    split at decided
    next pid seg hone =>
      rw [hone] at perm
      rw [if_pos hpin, ← singleton_perm.mp perm]
      exact decided
    · cases decided
  next hpin =>
    have hnil : c'.unknown = [] ↔ c.unknown = [] := by
      rw [← length_eq_zero_iff, ← length_eq_zero_iff, perm.length_eq]
    rw [if_neg hpin]
    change rankOrder tp c = .ok out at decided
    change rankOrder tp c' = .ok out
    unfold rankOrder at decided ⊢
    split at decided
    · cases decided
    next hknown =>
      rw [if_neg (by rwa [Ne, hnil]), ranks]
      exact decided

end RankClaims

open RankClaims

/-- A process of the rank listens on the port of the segment. -/
def Listens (targetIp : String) (rows : List ProbeRow) (rank : Option Int) (seg : Segment) : Prop :=
  ∃ row ∈ rows, row.rank = rank ∧ ∃ port ∈ row.ports, onPort targetIp port seg = true

instance listensDecidable (targetIp : String) (rows : List ProbeRow) (rank : Option Int) (seg : Segment) :
    Decidable (Listens targetIp rows rank seg) :=
  inferInstanceAs (Decidable (∃ row ∈ rows, row.rank = rank ∧ ∃ port ∈ row.ports, onPort targetIp port seg = true))

/-- Every rank has a segment of its own: one that its processes listen on, and no other that they do. A single
rank may have the only match of the rows without a rank. -/
structure Resolves (segs : List Segment) (rows : List ProbeRow) (tp : Nat) (targetIp : String) (out : List Segment) :
    Prop where
  length : out.length = tp
  distinct : out.Nodup
  claimed : ∀ (i : Nat) seg, out[i]? = some seg → seg ∈ segs ∧ (Listens targetIp rows (some i) seg ∨
    tp = 1 ∧ ∃ pid, unranked segs targetIp (probes rows) = [(pid, seg)])
  alone : ∀ i < tp, ∀ seg ∈ segs, Listens targetIp rows (some (i : Int)) seg → out[i]? = some seg

def Apart (segs : List Segment) (rows : List ProbeRow) (tp : Nat) (targetIp : String) : Prop :=
  ∀ i < tp, ∀ j < tp, i ≠ j → ∀ seg ∈ segs, Listens targetIp rows (some (i : Int)) seg →
    ¬Listens targetIp rows (some (j : Int)) seg

/-- The rows in another order, and the ports of each in another order. -/
def Reordered (rows rows' : List ProbeRow) : Prop :=
  ∃ rows₀, rows.Perm rows₀ ∧
    List.Forall₂ (fun row row' => row.pid = row'.pid ∧ row.rank = row'.rank ∧ row.ports.Perm row'.ports) rows₀ rows'

theorem Reordered.probes_perm {rows rows' : List ProbeRow} (h : Reordered rows rows') :
    (probes rows).Perm (probes rows') := by
  obtain ⟨rows₀, hperm, hports⟩ := h
  have hinner : (probes rows₀).Perm (probes rows') := by
    clear hperm
    induction hports with
    | nil => exact .nil
    | cons hrow _ ih =>
      obtain ⟨hpid, hrank, hports⟩ := hrow
      rw [probes, flatMap_cons, hpid, hrank]
      exact (hports.map _).append ih
  exact (hperm.flatMap_right _).trans hinner

variable {segs : List Segment} {rows : List ProbeRow} {tp : Nat} {targetIp : String} {out : List Segment}

theorem intersectRankSeg_ok (found : intersectRankSeg segs rows tp targetIp = .ok out) :
    ∃ c, gather segs targetIp ⟨∅, []⟩ (probes rows) = .ok c ∧ (pinSingle tp c >>= rankOrder tp) = .ok out := by
  rw [intersectRankSeg, foldlM_claimRow] at found
  exact bind_eq_ok found

theorem intersectRankSeg_perm {rows' : List ProbeRow} (h : (probes rows).Perm (probes rows'))
    (found : intersectRankSeg segs rows tp targetIp = .ok out) : intersectRankSeg segs rows' tp targetIp = .ok out := by
  obtain ⟨c, hc, decided⟩ := intersectRankSeg_ok found
  obtain ⟨c', hc', hranks, hperm⟩ := gathered_perm h hc
  rw [intersectRankSeg, foldlM_claimRow, hc']
  exact decided_perm hranks hperm decided

theorem RankClaims.Gathers.listens {c : RankClaims} (h : Gathers segs targetIp (probes rows) c) (r : Int)
    (seg : Segment) : c.rankSeg.lookup r = some seg ↔ seg ∈ segs ∧ Listens targetIp rows (some r) seg := by
  rw [h.ranked]
  constructor
  · rintro ⟨p, hp, hr, hseg⟩
    obtain ⟨row, hrow, hp⟩ := mem_flatMap.mp hp
    obtain ⟨port, hport, rfl⟩ := mem_map.mp hp
    obtain ⟨hseg, hon⟩ := mem_filter.mp hseg
    exact ⟨hseg, row, hrow, hr, port, hport, hon⟩
  · rintro ⟨hseg, row, hrow, hr, port, hport, hon⟩
    exact ⟨_, mem_flatMap.mpr ⟨row, hrow, mem_map.mpr ⟨port, hport, rfl⟩⟩, hr, mem_filter.mpr ⟨hseg, hon⟩⟩

theorem resolves_iff (found : intersectRankSeg segs rows tp targetIp = .ok out) :
    Resolves segs rows tp targetIp out ↔ Apart segs rows tp targetIp := by
  obtain ⟨c, hc, decided⟩ := intersectRankSeg_ok found
  have h := gathers_of_ok hc
  rcases decided_cases decided with ⟨pid, seg, rfl, hzero, hone, rfl⟩ | ⟨hlength, hget⟩
  · have hmem : (pid, seg) ∈ unranked segs targetIp (probes rows) := by simp [← h.unknown, hone]
    have hseg : seg ∈ segs := by
      obtain ⟨p, -, hp⟩ := mem_flatMap.mp hmem
      split at hp
      · obtain ⟨seg', hseg', heq⟩ := mem_map.mp hp
        cases heq
        exact (mem_filter.mp hseg').1
      · cases hp
    refine iff_of_true ⟨rfl, nodup_singleton _, ?_, ?_⟩ fun i hi j hj hne => absurd (by omega) hne
    · intro i seg' hi
      obtain ⟨-, rfl⟩ := List.getElem?_eq_some_iff.mp hi
      rw [getElem_singleton]
      exact ⟨hseg, .inr ⟨rfl, pid, h.unknown.symm.trans hone⟩⟩
    · intro i hi seg' hseg' hlistens
      obtain rfl : i = 0 := by omega
      exact absurd (mem_of_lookup_eq_some ((h.listens 0 seg').mpr ⟨hseg', hlistens⟩)) hzero
  · have hat : ∀ (i : Nat) seg, out[i]? = some seg ↔ i < tp ∧ seg ∈ segs ∧ Listens targetIp rows (some i) seg := by
      intro i seg
      rw [hget, h.listens]
    constructor
    · intro hres i hi j hj hne seg hseg hlistens hlistens'
      have hsame := (hres.alone i hi seg hseg hlistens).trans (hres.alone j hj seg hseg hlistens').symm
      exact hne ((getElem?_inj (hlength ▸ hi) hres.distinct).mp hsame)
    · intro hapart
      refine ⟨hlength, ?_, fun i seg hi => ⟨((hat i seg).mp hi).2.1, .inl ((hat i seg).mp hi).2.2⟩,
        fun i hi seg hseg hlistens => (hat i seg).mpr ⟨hi, hseg, hlistens⟩⟩
      rw [nodup_iff_getElem?_ne_getElem?]
      intro i j hij hj heq
      obtain ⟨hj', hseg, hlistens⟩ := (hat j out[j]).mp (getElem?_eq_getElem hj)
      obtain ⟨hi', -, hlistens'⟩ := (hat i out[j]).mp (heq.trans (getElem?_eq_getElem hj))
      exact hapart i hi' j hj' (by omega) _ hseg hlistens' hlistens

/-- What is returned gives every rank its segment exactly if no two ranks have processes on the port of one segment.
Neither that something is returned, nor what, depends on the order of the rows and of their ports. -/
theorem ranks_resolved_iff (segs : List Segment) (rows : List ProbeRow) (tp : Nat) (targetIp : String) :
    (∀ out, intersectRankSeg segs rows tp targetIp = .ok out →
      (Resolves segs rows tp targetIp out ↔ Apart segs rows tp targetIp)) ∧ ∀ rows', Reordered rows rows' → ∀ out,
      intersectRankSeg segs rows tp targetIp = .ok out ↔ intersectRankSeg segs rows' tp targetIp = .ok out :=
  ⟨fun _ found => resolves_iff found, fun _ h _ =>
    ⟨intersectRankSeg_perm h.probes_perm, intersectRankSeg_perm h.probes_perm.symm⟩⟩

def firstSegment : Segment := ⟨"10.0.0.1", "7000", by decide⟩

def secondSegment : Segment := ⟨"10.0.0.1", "7001", by decide⟩

def separateRows : List ProbeRow := [⟨1, some 1, [22, 7001]⟩, ⟨2, some 0, [7000]⟩]

theorem ranks_resolved_separate :
    intersectRankSeg [firstSegment, secondSegment] separateRows 2 "" = .ok [firstSegment, secondSegment] ∧
      Resolves [firstSegment, secondSegment] separateRows 2 "" [firstSegment, secondSegment] := by
  have found : intersectRankSeg [firstSegment, secondSegment] separateRows 2 "" =
      .ok [firstSegment, secondSegment] := by rfl
  refine ⟨found, ((ranks_resolved_iff _ _ _ _).1 _ found).mpr ?_⟩
  unfold Apart
  decide

/-- A forked process that holds the port of another rank open: both ranks get the one segment. -/
theorem shared_port_two_ranks : intersectRankSeg [firstSegment] [⟨1, some 0, [7000]⟩, ⟨2, some 1, [7000]⟩] 2 "" =
        .ok [firstSegment, firstSegment] ∧
      ¬Resolves [firstSegment] [⟨1, some 0, [7000]⟩, ⟨2, some 1, [7000]⟩] 2 "" [firstSegment, firstSegment] := by
  refine ⟨by rfl, fun h => ?_⟩
  have hdistinct := h.distinct
  simp at hdistinct

end LakeKv
