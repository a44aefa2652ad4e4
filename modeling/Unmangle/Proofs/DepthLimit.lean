import Unmangle.Proofs.Reach

/-!
# What the depth limit hides

The walk goes depth first and enters each exception once, so the depth at which it enters one is
the length of the first path it comes along, and that need not be the shortest. An exception that
is entered at the last level along a detour keeps what is nested in it from view, even if a
shorter path leads to it later: there it is only referred to.

Hence the limit never shows what is too deep, but it can hide what is not. `detour` is a graph
where it does, and where a higher limit shows less than a lower one. What holds of every graph
whose links stay inside it is `entered_walk_of_closed`: an exception closer to the root than the
limit is hidden only behind one that was entered at the last level though a shorter path leads to
it. Where there is none, the exceptions entered are exactly those closer than the limit, and
raising the limit to this one takes none away.
-/

namespace Unmangle

namespace ExceptionGraph

/-- Five exceptions, where a long and a short path lead from the first to the fourth. -/
def detour : ExceptionGraph :=
  ⟨#[{ typeName := "Outer", children := [1, 3] }, { typeName := "First", inner := some 2 },
    { typeName := "Second", inner := some 3 }, { typeName := "Shared", inner := some 4 },
    { typeName := "Cause" }]⟩

theorem detour_closed : detour.Closed := by decide

theorem walk_detour_three : detour.walk 0 3 =
    [.enter 0 0 1, .enter 1 1 2, .enter 2 2 3, .truncated 3, .leave 2, .leave 1,
      .enter 3 1 4, .enter 4 2 5, .leave 2, .leave 1] := by
  cbv

theorem walk_detour_four : detour.walk 0 4 =
    [.enter 0 0 1, .enter 1 1 2, .enter 2 2 3, .enter 3 3 4, .truncated 4, .leave 3, .leave 2,
      .leave 1, .duplicate 4 1] := by
  cbv

theorem isDistance_detour : detour.IsDistance 0 4 2 := by
  have hshared : detour.Path 0 1 3 := Path.here.step (by decide)
  refine ⟨hshared.step (by decide), fun length hpath => ?_⟩
  exact hpath.two_le (by decide) (by decide)

/-- The last exception is two links away. A limit of three lets it show, and one of four hides
it, because the exception before it is then first met along the detour. -/
theorem detour_hides_near_exception :
    detour.Closed ∧ detour.contains 0 = true ∧ detour.IsDistance 0 4 2 ∧
      4 ∈ entered (detour.walk 0 3) ∧ 4 ∉ entered (detour.walk 0 4) := by
  rw [walk_detour_three, walk_detour_four]
  exact ⟨detour_closed, by decide, isDistance_detour, by decide, by decide⟩

/-- Entered at the last level, though a shorter path leads to it. -/
def EnteredLate (g : ExceptionGraph) (root : ExceptionId) (maxDepth : Nat) (id : ExceptionId) :
    Prop :=
  (∃ ordinal, .enter id (maxDepth - 1) ordinal ∈ g.walk root maxDepth) ∧
    ∃ length < maxDepth - 1, g.Path root length id

/-- A path on which each exception that is left behind was entered above the last level. -/
inductive OpenPath (g : ExceptionGraph) (root : ExceptionId) (maxDepth : Nat) :
    ExceptionId → Prop
  | here : OpenPath g root maxDepth root
  | step {id link : ExceptionId} {depth ordinal : Nat} :
      OpenPath g root maxDepth id → .enter id depth ordinal ∈ g.walk root maxDepth →
      depth + 1 < maxDepth → g.Links id link → OpenPath g root maxDepth link

variable {g : ExceptionGraph} {root id : ExceptionId} {maxDepth : Nat}

theorem openPath_of_mem_entered (hmax : 1 ≤ maxDepth) (h : id ∈ entered (g.walk root maxDepth)) :
    g.OpenPath root maxDepth id := by
  obtain ⟨depth, ordinal, henter⟩ := mem_entered.1 h
  obtain ⟨hopen, hshallow⟩ := walk_invariant
    (fun id depth => depth < maxDepth → g.OpenPath root maxDepth id) (fun _ => .here)
    (fun id depth ordinal link henter hopen hlink hdeeper =>
      (hopen (by omega)).step henter hdeeper hlink) henter
  exact hopen (by omega)

theorem mem_entered_of_openPath (hclosed : g.Closed) (hroot : g.contains root = true)
    (h : g.OpenPath root maxDepth id) : id ∈ entered (g.walk root maxDepth) := by
  induction h with
  | here => exact root_mem_entered hroot
  | step _ henter hshallow hlink _ =>
      exact link_mem_entered henter (by omega) hlink (hclosed _ _ hlink)

/-- Going along a path, the first exception that is not entered comes right behind one that was
entered late. -/
theorem exists_enteredLate (hclosed : g.Closed) (hroot : g.contains root = true)
    {length : Nat} (hpath : g.Path root length id) (hlt : length < maxDepth)
    (hhidden : id ∉ entered (g.walk root maxDepth)) :
    ∃ late before, before < length ∧ g.Path root before late ∧
      g.Path late (length - before) id ∧ g.EnteredLate root maxDepth late := by
  induction hpath with
  | here => exact absurd (root_mem_entered hroot) hhidden
  | @step length id link hpath hlink ih =>
      by_cases hid : id ∈ entered (g.walk root maxDepth)
      · obtain ⟨depth, ordinal, henter⟩ := mem_entered.1 hid
        obtain ⟨-, hdepth⟩ := path_of_enter henter
        have hlast : depth = maxDepth - 1 := by
          refine Classical.byContradiction fun hne => hhidden ?_
          exact link_mem_entered henter (by omega) hlink (hclosed id link hlink)
        refine ⟨id, length, by omega, hpath, ?_, ⟨ordinal, hlast ▸ henter⟩, length, by omega, hpath⟩
        rw [Nat.add_sub_cancel_left]
        exact Path.here.step hlink
      · obtain ⟨late, before, hbefore, hstart, hend, hlate⟩ := ih (by omega) hid
        refine ⟨late, before, by omega, hstart, ?_, hlate⟩
        rw [Nat.sub_add_comm (by omega)]
        exact hend.step hlink

/-- The walk enters nothing that is as far from the root as the limit. -/
theorem exists_isDistance_of_mem_entered (hmax : 1 ≤ maxDepth)
    (h : id ∈ entered (g.walk root maxDepth)) :
    ∃ distance < maxDepth, g.IsDistance root id distance := by
  obtain ⟨depth, ordinal, henter⟩ := mem_entered.1 h
  obtain ⟨hpath, hdepth⟩ := path_of_enter henter
  obtain ⟨distance, hle, hdistance⟩ := exists_isDistance hpath
  exact ⟨distance, by omega, hdistance⟩

theorem mem_entered_of_isDistance (hclosed : g.Closed) (hroot : g.contains root = true)
    (hnone : ∀ late, ¬ g.EnteredLate root maxDepth late) {distance : Nat}
    (hdistance : g.IsDistance root id distance) (hlt : distance < maxDepth) :
    id ∈ entered (g.walk root maxDepth) := by
  refine Classical.byContradiction fun hhidden => ?_
  obtain ⟨late, _, _, _, _, hlate⟩ := exists_enteredLate hclosed hroot hdistance.1 hlt hhidden
  exact hnone late hlate

/-- What a walk under some limit enters: nothing that is too deep, all that an open path leads to,
and nearer exceptions are hidden only behind one that was entered late. -/
theorem entered_walk_of_closed (hclosed : g.Closed) (hroot : g.contains root = true)
    (hmax : 1 ≤ maxDepth) :
    (∀ id ∈ entered (g.walk root maxDepth),
      ∃ distance < maxDepth, g.IsDistance root id distance) ∧
    (∀ id, id ∈ entered (g.walk root maxDepth) ↔ g.OpenPath root maxDepth id) ∧
    (∀ id distance, g.IsDistance root id distance → distance < maxDepth →
      id ∉ entered (g.walk root maxDepth) →
      ∃ late before, before < distance ∧ g.Path root before late ∧
        g.Path late (distance - before) id ∧ g.EnteredLate root maxDepth late) ∧
    ((∀ late, ¬ g.EnteredLate root maxDepth late) →
      (∀ id, id ∈ entered (g.walk root maxDepth) ↔
        ∃ distance < maxDepth, g.IsDistance root id distance) ∧
      ∀ lower, 1 ≤ lower → lower ≤ maxDepth →
        ∀ id ∈ entered (g.walk root lower), id ∈ entered (g.walk root maxDepth)) := by
  refine ⟨fun id => exists_isDistance_of_mem_entered hmax, fun id => ⟨?_, ?_⟩, ?_, ?_⟩
  · exact openPath_of_mem_entered hmax
  · exact mem_entered_of_openPath hclosed hroot
  · exact fun id distance hdistance => exists_enteredLate hclosed hroot hdistance.1
  · intro hnone
    have hnear : ∀ id distance, g.IsDistance root id distance → distance < maxDepth →
        id ∈ entered (g.walk root maxDepth) :=
      fun id distance => mem_entered_of_isDistance hclosed hroot hnone
    refine ⟨fun id => ⟨exists_isDistance_of_mem_entered hmax, ?_⟩, ?_⟩
    · rintro ⟨distance, hlt, hdistance⟩
      exact hnear id distance hdistance hlt
    · intro lower hlower hle id hid
      obtain ⟨distance, hlt, hdistance⟩ := exists_isDistance_of_mem_entered hlower hid
      exact hnear id distance hdistance (by omega)

/-- Under a limit of three nothing in `detour` is entered late, under one of four the exception
before the hidden one is. -/
theorem entered_walk_detour :
    detour.Closed ∧ detour.contains 0 = true ∧ 1 ≤ 3 ∧ 1 ≤ 4 ∧
      (∀ late, ¬ detour.EnteredLate 0 3 late) ∧
      (∀ id, id ∈ entered (detour.walk 0 3) ↔
        ∃ distance < 3, detour.IsDistance 0 id distance) ∧
      (∃ late before, before < 2 ∧ detour.Path 0 before late ∧
        detour.Path late (2 - before) 4 ∧ detour.EnteredLate 0 4 late) := by
  have hroot : detour.contains 0 = true := by decide
  have hnone : ∀ late, ¬ detour.EnteredLate 0 3 late := by
    rintro late ⟨⟨ordinal, henter⟩, length, hlt, hpath⟩
    have hlate : (late = 2 ∧ ordinal = 3) ∨ (late = 4 ∧ ordinal = 5) := by
      rw [walk_detour_three] at henter
      simpa using henter
    rcases hlate with ⟨rfl, -⟩ | ⟨rfl, -⟩
    · have := hpath.two_le (by decide) (by decide)
      omega
    · have := isDistance_detour.2 length hpath
      omega
  have hhidden : 4 ∉ entered (detour.walk 0 4) := by
    rw [walk_detour_four]
    decide
  obtain ⟨-, -, -, hexact⟩ := entered_walk_of_closed detour_closed hroot (by decide : 1 ≤ 3)
  obtain ⟨-, -, hbehind, -⟩ := entered_walk_of_closed detour_closed hroot (by decide : 1 ≤ 4)
  exact ⟨detour_closed, hroot, by decide, by decide, hnone, (hexact hnone).1,
    hbehind 4 2 isDistance_detour (by decide) hhidden⟩

end ExceptionGraph

end Unmangle
