import Unmangle.Proofs.Searches

/-!
# The moves of a search

A search goes outward from site to site, and what holds "on the way" holds of its moves. They are
listed here apart from what the search collects. A search that has made as many moves as it may is
cut off; one that makes fewer has met a site from which no step leads outward, and says by the name
it returns which of the two kinds of site that was (`step_eq_stay`, `step_eq_orphan`).
-/

namespace Unmangle.Origin

/-- The moves of a search from a site, each from one site to the next. -/
def moves (md : Metadata) : Nat → Site → List (Site × Site)
  | 0, _ => []
  | steps + 1, site =>
    match site.step md with
    | .outward _ next => (site, next) :: moves md steps next
    | .stay | .orphan _ _ => []

/-- A search from the site ends by itself, before it has made as many moves as it may. -/
def EndsByItself (md : Metadata) (steps : Nat) (site : Site) : Prop :=
  (moves md steps site).length < steps

instance {md : Metadata} {steps : Nat} {site : Site} : Decidable (EndsByItself md steps site) :=
  inferInstanceAs (Decidable (_ < _))

variable {md : Metadata} {site next : Site} {passage : Passage}

theorem moves_of_outward {steps : Nat} (h : site.step md = .outward passage next) :
    moves md (steps + 1) site = (site, next) :: moves md steps next := by
  rw [moves, h]

/-- A move is a step to a method that the metadata leads to. -/
theorem exists_outward_of_mem_moves {move : Site × Site} {steps : Nat}
    (h : move ∈ moves md steps site) : ∃ method, move.2 = move.1.outward md method := by
  induction steps generalizing site with
  | zero => cases h
  | succ steps ih =>
      have htakes := site.takes_step md
      cases hstep : site.step md with
      | stay | orphan => simp [moves, hstep] at h
      | outward passage next =>
          rw [moves_of_outward hstep] at h
          rcases List.mem_cons.1 h with rfl | h
          · rw [hstep] at htakes
            cases htakes with
            | leaveClosure | leaveMachine => exact ⟨_, rfl⟩
          · exact ih h

/-- What every move keeps holds where the search ends, if it holds where the search begins. -/
theorem search_site_of_moves {P : Site → Prop} {steps : Nat} (hstart : P site)
    (hmove : ∀ move ∈ moves md steps site, P move.1 → P move.2) :
    P (search md steps site).site := by
  induction steps, site using search_induction md with
  | exhausted site => exact hstart
  | stay steps site hstep => exact hstart
  | orphan steps site passage name hstep => exact hstart
  | outward steps site passage next hstep ih =>
      rw [moves_of_outward hstep] at hmove
      have hnext : P next := hmove (site, next) List.mem_cons_self hstart
      exact ih hnext fun move h => hmove move (List.mem_cons_of_mem _ h)

/-- A search that returns a name has met a body whose method is not in the metadata. -/
theorem step_eq_orphan {steps : Nat} {name : String}
    (h : (search md steps site).orphanName = some name) :
    ∃ passage, (search md steps site).site.step md = .orphan passage name := by
  induction steps, site using search_induction md with
  | exhausted site => cases h
  | stay steps site hstep => cases h
  | orphan steps site passage found hstep =>
      cases h
      exact ⟨passage, hstep⟩
  | outward steps site passage next hstep ih => exact ih h

/-- A search that ends by itself and returns no name has met a site that stays. -/
theorem step_eq_stay {steps : Nat} (hends : EndsByItself md steps site)
    (h : (search md steps site).orphanName = none) :
    (search md steps site).site.step md = .stay := by
  induction steps, site using search_induction md with
  | exhausted site => exact absurd hends (Nat.not_lt_zero _)
  | stay steps site hstep => exact hstep
  | orphan steps site passage name hstep => cases h
  | outward steps site passage next hstep ih =>
      rw [EndsByItself, moves_of_outward hstep] at hends
      exact ih (Nat.lt_of_succ_lt_succ hends) h

end Unmangle.Origin
