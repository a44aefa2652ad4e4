import Unmangle.Origin.Call
import Unmangle.Proofs.Steps

/-!
# Searches

A search hands on from step to step what it has passed, and no step looks at it. So what a search
finds behind that is what it would find if nothing had been passed before (`searchFrom_eq`), and a
search can be taken apart from its first step (`search_of_outward`, `search_induction`).

`Reaches` is the other way to look at it: the points that a search comes to, each of them a site
with all that has been passed by then.
-/

namespace Unmangle

/-- What has been passed by a row of steps. -/
theorem Passed.foldl_after (passages : List Passage) (passed : Passed) :
    passages.foldl after passed =
      { bodies := passed.bodies ++ passages.flatMap (·.body.toList)
        isAsync := passed.isAsync || passages.any (·.isAsync) } := by
  induction passages generalizing passed with
  | nil => simp
  | cons passage rest ih => simp [ih, after, Bool.or_assoc]

namespace Origin

/-- Puts what was passed when leaving `site` in front of what was found further out. -/
def passing (site : Site) (passage : Passage) (found : Origin) : Origin :=
  { found with
    bodies := found.bodies ++ passage.body.toList
    isAsync := passage.isAsync || found.isAsync
    visited := site :: found.visited }

/-- What was found, behind what had been passed before. -/
def behind (passed : Passed) (found : Origin) : Origin :=
  { found with
    bodies := found.bodies ++ passed.bodies.reverse
    isAsync := passed.isAsync || found.isAsync }

variable {md : Metadata} {site next : Site} {passage : Passage}

/-- What has been passed before makes no difference to what is found. -/
theorem searchFrom_eq (steps : Nat) (site : Site) (passed : Passed) :
    searchFrom md steps site passed = (search md steps site).behind passed := by
  induction steps generalizing site passed with
  | zero => simp [search, searchFrom, behind, ending]
  | succ steps ih =>
      rw [search, searchFrom, searchFrom, Site.run_unwrap, Site.run_unwrap]
      cases site.step md with
      | stay => simp [Step.after, behind, ending]
      | orphan passage name => simp [Step.after, behind, ending, Passed.after]
      | outward passage next =>
          simp only [Step.after]
          rw [ih, ih]
          simp [behind, Passed.after, Bool.or_assoc]

theorem reverse_toList (body : Option Body) : body.toList.reverse = body.toList := by
  cases body <;> rfl

theorem search_of_stay {steps : Nat} (h : site.step md = .stay) :
    search md (steps + 1) site = { site, visited := [site] } := by
  rw [search, searchFrom, Site.run_unwrap, h]
  rfl

theorem search_of_outward {steps : Nat} (h : site.step md = .outward passage next) :
    search md (steps + 1) site = passing site passage (search md steps next) := by
  rw [search, searchFrom, Site.run_unwrap, h]
  simp only [Step.after]
  rw [searchFrom_eq]
  simp [behind, passing, Passed.after, reverse_toList]

theorem search_of_orphan {steps : Nat} {name : String} (h : site.step md = .orphan passage name) :
    search md (steps + 1) site = passing site passage { site, orphanName := some name } := by
  rw [search, searchFrom, Site.run_unwrap, h]
  simp [Step.after, passing, Passed.after, ending, reverse_toList]

/-- The four ways in which a search goes on from a site. -/
theorem search_induction (md : Metadata) {motive : Nat → Site → Origin → Prop}
    (exhausted : ∀ site, motive 0 site { site })
    (stay : ∀ steps site, site.step md = .stay →
      motive (steps + 1) site { site, visited := [site] })
    (orphan : ∀ steps site passage name, site.step md = .orphan passage name →
      motive (steps + 1) site (passing site passage { site, orphanName := some name }))
    (outward : ∀ steps site passage next, site.step md = .outward passage next →
      motive steps next (search md steps next) →
      motive (steps + 1) site (passing site passage (search md steps next)))
    (steps : Nat) (site : Site) : motive steps site (search md steps site) := by
  induction steps generalizing site with
  | zero => exact exhausted site
  | succ steps ih =>
      cases h : site.step md with
      | stay =>
          rw [search_of_stay h]
          exact stay steps site h
      | orphan passage name =>
          rw [search_of_orphan h]
          exact orphan steps site passage name h
      | outward passage next =>
          rw [search_of_outward h]
          exact outward steps site passage next h (ih next)

/-! ## The points of a search -/

/-- By so many steps outward a search comes from one point to another. A point is a site with what
has been passed by then. -/
inductive Reaches (md : Metadata) : Nat → Site → Passed → Site → Passed → Prop
  | start {site : Site} {passed : Passed} : Reaches md 0 site passed site passed
  | step {count : Nat} {site next last : Site} {passed after final : Passed}
      (hstep : (site.unwrap md).run passed = (.outward next, after))
      (hrest : Reaches md count next after last final) :
      Reaches md (count + 1) site passed last final

variable {count : Nat} {last : Site} {passed final : Passed}

theorem Reaches.searchFrom_eq (h : Reaches md count site passed last final) (steps : Nat) :
    ∃ visited, searchFrom md (count + steps) site passed =
      { searchFrom md steps last final with visited } := by
  induction h with
  | @start site passed => exact ⟨(searchFrom md steps site passed).visited, by rw [Nat.zero_add]⟩
  | @step count site next last passed after final hstep hrest ih =>
      obtain ⟨visited, hsearch⟩ := ih
      refine ⟨site :: visited, ?_⟩
      rw [Nat.add_right_comm, searchFrom, hstep]
      simp only [hsearch]

/-- A step is known by what it adds. -/
theorem Reaches.of_step (hstep : site.step md = .outward passage next)
    (hrest : Reaches md count next (passed.after passage) last final) :
    Reaches md (count + 1) site passed last final := by
  refine .step ?_ hrest
  rw [Site.run_unwrap, hstep]
  rfl

/-- A search that ends after a row of steps has passed their bodies, the outermost one last. -/
theorem ending_foldl_after (site : Site) (passages : List Passage) :
    ending site (passages.foldl Passed.after {}) =
      { site
        bodies := passages.reverse.flatMap (·.body.toList)
        isAsync := passages.any (·.isAsync) } := by
  simp [ending, Passed.foldl_after, List.reverse_flatMap, Function.comp_def, reverse_toList]

/-- Where a site stays, what has been passed is the result, whether or not there is a step left for
finding out that it stays. -/
theorem Reaches.search_of_stay (h : Reaches md count site {} last final)
    (hstay : last.step md = .stay) {steps : Nat} (hsteps : count ≤ steps) :
    ∃ visited, search md steps site = { ending last final with visited } := by
  obtain ⟨rest, rfl⟩ := Nat.exists_eq_add_of_le hsteps
  obtain ⟨visited, hsearch⟩ := h.searchFrom_eq rest
  refine ⟨visited, hsearch.trans ?_⟩
  cases rest with
  | zero => rfl
  | succ rest =>
      rw [searchFrom, Site.run_unwrap, hstay]
      rfl

end Origin

end Unmangle
