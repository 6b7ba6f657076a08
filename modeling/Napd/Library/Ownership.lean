import Mathlib.Data.Finset.Basic
import Mathlib.Logic.Function.Basic

/-!
Owners and the handles they hold, such as open files or allocated blocks.

* `Owned`: the handles that are live are those of outside and those that are held, each by one
  owner; nobody holds one of outside.
* `Owned.acquire`, `Owned.release`: a new handle goes to an owner that has none, and an owner
  gives up the one it has.
* `Owned.stray_acquire`, `Owned.stray_release`: what breaks it. A live handle that nobody holds is
  lost, and a handle that is released by somebody else is missing.
-/

namespace Ownership

variable {ι H : Type*} [DecidableEq ι] [DecidableEq H]

/-- Every live handle is one of outside or is held by one owner. -/
structure Owned (outside live : Finset H) (holds : ι → Option H) : Prop where
  live_iff : ∀ h, h ∈ live ↔ h ∈ outside ∨ ∃ i, holds i = some h
  inside : ∀ i h, holds i = some h → h ∉ outside
  one : ∀ i j h, holds i = some h → holds j = some h → i = j

namespace Owned

variable {outside live : Finset H} {holds : ι → Option H}

/-- An owner without a handle gets a new one. -/
lemma acquire (hown : Owned outside live holds) {i : ι} (hi : holds i = none) {h : H}
    (hnew : h ∉ live) : Owned outside (insert h live) (Function.update holds i (some h)) := by
  have hout : h ∉ outside := fun hmem => hnew ((hown.live_iff h).mpr (.inl hmem))
  have hheld : ∀ j, holds j ≠ some h := fun j hj => hnew ((hown.live_iff h).mpr (.inr ⟨j, hj⟩))
  refine ⟨fun g => ?_, fun j g hj => ?_, fun j k g hj hk => ?_⟩
  · rw [Finset.mem_insert, hown.live_iff]
    constructor
    · rintro (rfl | hg | ⟨j, hj⟩)
      · exact .inr ⟨i, Function.update_self _ _ _⟩
      · exact .inl hg
      · refine .inr ⟨j, ?_⟩
        have hne : j ≠ i := by
          rintro rfl
          rw [hi] at hj
          cases hj
        rw [Function.update_of_ne hne, hj]
    · rintro (hg | ⟨j, hj⟩)
      · exact .inr (.inl hg)
      · rw [Function.update_apply] at hj
        split_ifs at hj
        · exact .inl (Option.some.inj hj).symm
        · exact .inr (.inr ⟨j, hj⟩)
  · rw [Function.update_apply] at hj
    split_ifs at hj
    · rwa [← Option.some.inj hj]
    · exact hown.inside j g hj
  · rw [Function.update_apply] at hj hk
    split_ifs at hj hk with hji hki hki
    · rw [hji, hki]
    · exact absurd (hk.trans hj.symm) (hheld k)
    · exact absurd (hj.trans hk.symm) (hheld j)
    · exact hown.one j k g hj hk

/-- An owner gives up the handle it has. -/
lemma release (hown : Owned outside live holds) {i : ι} {h : H} (hi : holds i = some h) :
    Owned outside (live.erase h) (Function.update holds i none) := by
  refine ⟨fun g => ?_, fun j g hj => ?_, fun j k g hj hk => ?_⟩
  · rw [Finset.mem_erase, hown.live_iff]
    constructor
    · rintro ⟨hne, hg | ⟨j, hj⟩⟩
      · exact .inl hg
      · refine .inr ⟨j, ?_⟩
        have hji : j ≠ i := by
          rintro rfl
          exact hne (Option.some.inj (hj.symm.trans hi))
        rw [Function.update_of_ne hji, hj]
    · rintro (hg | ⟨j, hj⟩)
      · refine ⟨?_, .inl hg⟩
        rintro rfl
        exact hown.inside i _ hi hg
      · rw [Function.update_apply] at hj
        split_ifs at hj with hji
        refine ⟨?_, .inr ⟨j, hj⟩⟩
        rintro rfl
        exact hji (hown.one j i _ hj hi)
  · rw [Function.update_apply] at hj
    split_ifs at hj
    exact hown.inside j g hj
  · rw [Function.update_apply] at hj hk
    split_ifs at hj hk
    exact hown.one j k g hj hk

omit [DecidableEq ι] in
/-- A new handle that nobody gets is lost. -/
lemma stray_acquire (hown : Owned outside live holds) {h : H} (hnew : h ∉ live)
    {holds' : ι → Option H} (hsub : ∀ i g, holds' i = some g → holds i = some g) :
    ¬ Owned outside (insert h live) holds' := by
  intro h'
  rcases (h'.live_iff h).mp (Finset.mem_insert_self h live) with hout | ⟨i, hi⟩
  · exact hnew ((hown.live_iff h).mpr (.inl hout))
  · exact hnew ((hown.live_iff h).mpr (.inr ⟨i, hsub i h hi⟩))

omit [DecidableEq ι] in
/-- A live handle that is released by one who does not hold it is missing. -/
lemma stray_release (hown : Owned outside live holds) {h : H} (hlive : h ∈ live) :
    ¬ Owned outside (live.erase h) holds := by
  intro h'
  exact Finset.notMem_erase h live
    ((h'.live_iff h).mpr ((hown.live_iff h).mp hlive))

end Owned

end Ownership
