import Mathlib.Order.Defs.Unbundled
import Mathlib.Tactic.Common

def Wins {α : Type} (beats : α → α → Prop) (l : List α) (a : α) : Prop :=
  a ∈ l ∧ ∀ b ∈ l, b ≠ a → beats a b

/-- The scan that gives up its choice only for a member that beats it. -/
def scanBest {α : Type} (beats : α → α → Prop) [DecidableRel beats] (a : α) (l : List α) : α :=
  l.foldl (fun best x => if beats x best then x else best) a

namespace Wins

variable {α : Type} {beats : α → α → Prop} {l l' : List α} {a b : α}

theorem congr (same : ∀ x, x ∈ l ↔ x ∈ l') (wins : Wins beats l a) : Wins beats l' a :=
  ⟨(same a).mp wins.1, fun b mem => wins.2 b ((same b).mpr mem)⟩

theorem of_insert (same : ∀ x, x ∈ l' ↔ x = b ∨ x ∈ l) (wins : Wins beats l' a) : a = b ∨ Wins beats l a := by
  rcases (same a).mp wins.1 with new | old
  · exact .inl new
  · exact .inr ⟨old, fun c mem => wins.2 c ((same c).mpr (.inr mem))⟩

theorem singleton (a : α) : Wins beats [a] a := by
  refine ⟨List.mem_cons_self, ?_⟩
  intro b mem ne
  exact absurd (List.mem_singleton.mp mem) ne

theorem cons_of_beaten (wins : Wins beats l a) (new : b ≠ a → beats a b) : Wins beats (b :: l) a := by
  refine ⟨List.mem_cons_of_mem b wins.1, ?_⟩
  intro c mem ne
  rcases List.mem_cons.mp mem with rfl | old
  · exact new ne
  · exact wins.2 c old ne

section Order

variable [IsStrictTotalOrder α beats]

theorem unique (first : Wins beats l a) (second : Wins beats l b) : a = b := by
  by_contra ne
  exact asymm_of beats (first.2 b second.1 (Ne.symm ne)) (second.2 a first.1 ne)

theorem cons_of_beats (wins : Wins beats l a) (new : beats b a) : Wins beats (b :: l) b := by
  refine ⟨List.mem_cons_self, ?_⟩
  intro c mem ne
  have old := (List.mem_cons.mp mem).resolve_left ne
  by_cases same : c = a
  · exact same ▸ new
  · exact trans_of beats new (wins.2 c old same)

/-- A loop that keeps the better of its choice and the next member finds the best. -/
theorem foldl {pick : α → α → α} (better : ∀ x y, Wins beats [x, y] (pick x y)) (a : α) (l : List α) :
    Wins beats (a :: l) (l.foldl pick a) := by
  induction l generalizing a with
  | nil => exact singleton a
  | cons x l ih =>
    have rest := ih (pick a x)
    have pair := better a x
    refine ⟨?_, ?_⟩
    · rcases List.mem_cons.mp rest.1 with same | mem
      · rw [List.foldl_cons, same]
        exact List.mem_append_left l pair.1
      · exact List.mem_cons_of_mem a (List.mem_cons_of_mem x mem)
    · -- a member of the pair is beaten by its better one, and that by the best of all
      intro b mem ne
      rw [List.foldl_cons] at ne ⊢
      have split : b ∈ [a, x] ∨ b ∈ l := List.mem_append.mp (show b ∈ [a, x] ++ l from mem)
      rcases split with mem | mem
      · by_cases same : b = pick a x
        · exact rest.2 b (same ▸ List.mem_cons_self) ne
        · have second := pair.2 b mem same
          by_cases top : pick a x = List.foldl pick (pick a x) l
          · rw [← top]
            exact second
          · exact trans_of beats (rest.2 _ List.mem_cons_self top) second
      · exact rest.2 b (List.mem_cons_of_mem _ mem) ne

theorem pair_of_beats (wins : beats a b) : Wins beats [a, b] a ∧ Wins beats [b, a] a := by
  constructor
  · exact (singleton b).cons_of_beats wins
  · exact (singleton a).cons_of_beaten fun _ => wins

theorem pair_of_not (not : ¬ beats b a) : Wins beats [a, b] a ∧ Wins beats [b, a] a := by
  rcases trichotomous_of beats a b with wins | rfl | wins
  · exact pair_of_beats wins
  · have both : Wins beats [a, a] a := (singleton a).cons_of_beaten fun ne => absurd rfl ne
    exact ⟨both, both⟩
  · exact absurd wins not

theorem scanBest [DecidableRel beats] (a : α) (l : List α) : Wins beats (a :: l) (scanBest beats a l) := by
  refine foldl ?_ a l
  intro x y
  split
  next wins => exact (pair_of_beats wins).2
  next not => exact (pair_of_not not).1

end Order

end Wins
