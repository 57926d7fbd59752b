import Mathlib.Data.List.MinMax

set_option autoImplicit false

/- A search that keeps the best candidate it has met, from a score of 0 on. -/
namespace RunningBest

variable {Candidate : Type} (score : Candidate → Nat)

/-- A candidate takes over only if it is better than the best one. -/
def improve (best : Nat × Candidate) (candidate : Candidate) : Nat × Candidate :=
  if best.1 < score candidate then (score candidate, candidate) else best

variable (initial : Candidate) (candidates : List Candidate)

def search : Nat × Candidate := candidates.foldl (improve score) (0, initial)

/-- The candidates that can take over at all. -/
def scoring : List Candidate := candidates.filter fun candidate => decide (0 < score candidate)

theorem mem_scoring (candidate : Candidate) :
    candidate ∈ scoring score candidates ↔ candidate ∈ candidates ∧ 0 < score candidate := by
  rw [scoring, List.mem_filter, decide_eq_true_eq]

theorem scoring_concat (candidate : Candidate) :
    scoring score (candidates ++ [candidate]) =
      scoring score candidates ++ if 0 < score candidate then [candidate] else [] := by
  rw [scoring, List.filter_append, ← scoring]
  by_cases scores : 0 < score candidate <;> simp [scores]

theorem search_eq_argmax :
    search score initial candidates =
      ((scoring score candidates).argmax score).elim (0, initial)
        fun best => (score best, best) := by
  induction candidates using List.reverseRecOn with
  | nil => rfl
  | append_singleton seen candidate ih =>
      have positive (best : Candidate) (found : best ∈ (scoring score seen).argmax score) :
          0 < score best := ((mem_scoring score seen best).mp (List.argmax_mem found)).2
      rw [search, List.foldl_append, List.foldl_cons, List.foldl_nil, ← search, ih,
        scoring_concat, improve]
      by_cases scores : 0 < score candidate
      · rw [if_pos scores, List.argmax_concat]
        rcases best : (scoring score seen).argmax score with _ | found
        · simp [scores]
        · by_cases better : score found < score candidate <;> simp [better]
      · rw [if_neg scores, List.append_nil]
        rcases best : (scoring score seen).argmax score with _ | found
        · exact if_neg scores
        · have ahead := positive found best
          have behind : ¬ score found < score candidate := by omega
          exact if_neg behind

/-- A search that no candidate scores in. -/
theorem search_fails (low : ∀ candidate ∈ candidates, score candidate = 0) :
    search score initial candidates = (0, initial) := by
  have none_ : scoring score candidates = [] := by
    rw [scoring, List.filter_eq_nil_iff]
    intro candidate member scores
    have zero := low candidate member
    simp [zero] at scores
  rw [search_eq_argmax, none_]
  rfl

theorem search_finds (candidate : Candidate) (member : candidate ∈ candidates)
    (scores : 0 < score candidate) :
    ∃ best ∈ candidates, 0 < score best ∧
      (∀ other ∈ candidates, score other ≤ score best) ∧
      search score initial candidates = (score best, best) := by
  have listed := (mem_scoring score candidates candidate).mpr ⟨member, scores⟩
  obtain ⟨best, found⟩ : ∃ best, (scoring score candidates).argmax score = some best :=
    Option.ne_none_iff_exists'.mp fun none_ =>
      List.ne_nil_of_mem listed (List.argmax_eq_none.mp none_)
  obtain ⟨here, positive⟩ := (mem_scoring score candidates best).mp (List.argmax_mem found)
  refine ⟨best, here, positive, ?_, ?_⟩
  · intro other there
    by_cases low : score other = 0
    · omega
    · have rival := (mem_scoring score candidates other).mpr ⟨there, Nat.pos_of_ne_zero low⟩
      exact List.le_of_mem_argmax rival found
  · rw [search_eq_argmax, found, Option.elim_some]

/-- Where no two candidates score alike, the order that they come in does not matter. -/
theorem search_perm {candidates order : List Candidate} (perm : order.Perm candidates)
    (apart : ∀ left ∈ candidates, ∀ right ∈ candidates,
      0 < score left → score left = score right → left = right) :
    search score initial order = search score initial candidates := by
  by_cases scores : ∃ candidate ∈ candidates, 0 < score candidate
  · obtain ⟨candidate, member, positive⟩ := scores
    obtain ⟨best, here, some_, most, found⟩ :=
      search_finds score initial candidates candidate member positive
    obtain ⟨other, there, _, most', found'⟩ :=
      search_finds score initial order candidate (perm.mem_iff.mpr member) positive
    have equal : score best = score other :=
      Nat.le_antisymm (most' best (perm.mem_iff.mpr here)) (most other (perm.mem_iff.mp there))
    rw [found, found', apart best here other (perm.mem_iff.mp there) some_ equal]
  · have low (candidate : Candidate) (member : candidate ∈ candidates) :
        score candidate = 0 := by
      by_contra nonzero
      exact scores ⟨candidate, member, Nat.pos_of_ne_zero nonzero⟩
    rw [search_fails score initial candidates low,
      search_fails score initial order fun candidate member =>
        low candidate (perm.mem_iff.mp member)]

end RunningBest
