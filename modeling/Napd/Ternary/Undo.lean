import Napd.Ternary.Multimap

/-!
Erasing a key that was just inserted.

* `Represents.cell_eq`: two stores that represent the same tree have the same nodes.
* `eraseShape_insert`: on search trees, erasing undoes the insertion of a new key.
* `insert_erase`: so it does on the store, node by node, from every tree that can be reached.
-/

namespace Napd

namespace TernaryTree

open Linked TernarySearch

variable {Value : Type}

/-- Two stores that represent the same tree have the same root and the same nodes. -/
lemma Represents.cell_eq {t t' : TernaryTree Value} {T : Shape Value} (h : Represents t T)
    (h' : Represents t' T) : t'.root = t.root ∧ ∀ a, t'.heap.cell a = t.heap.cell a :=
  ⟨h'.root_eq.trans h.root_eq.symm, h.holds.cell_eq h'.holds⟩

variable [DecidableEq Value]

/-- Erasing the one value of a new key removes it, and what is left is the tree before. -/
lemma eraseShape_insert {T : Shape Value} (ht : T.Tidy) (fresh : ℕ → ℕ) (key : Key)
    (value : Value) (h : T.find key.val = none) :
    eraseShape (T.insert fresh value key.val) key.val (some value) = T := by
  have hfind : (T.insert fresh value key.val).find key.val = some {value} := by
    rw [SearchTree.find_insert T _ _ _ _ key.property key.property, if_pos rfl, h]
    rfl
  have hempty : leftover (some value) {value} = ∅ := by
    rw [leftover, Finset.erase_singleton]
  rw [eraseShape, hfind]
  simp only [hempty, if_true]
  exact SearchTree.remove_insert ht fresh value h

/-- **Inserting and erasing a new key changes nothing**: after any calls, the tree has the
same root and, at every address, the same node or none, with the same character, links and
values. -/
theorem insert_erase [OfNull Value] (ops : List (Op Value)) (t : TernaryTree Value)
    (hrun : (empty : TernaryTree Value).run ops = some t) (key : Key)
    (hkey : t.find key = some none) (value : Value) :
    ∃ t₁ t₂, t.insert key value = some t₁ ∧ t₁.erase key value = some t₂ ∧ t₂.root = t.root ∧
      ∀ a, t₂.heap.cell a = t.heap.cell a := by
  obtain ⟨t', hrun', T, h⟩ := run_implements implements_empty ops
  obtain rfl : t' = t := Option.some.inj (hrun'.symm.trans hrun)
  have hnone : T.find key.val = none := by
    rw [h.represents.find_eq, Option.some.injEq] at hkey
    exact hkey
  obtain ⟨t₁, hinsert, h₁⟩ := h.represents.insert key value
  obtain ⟨t₂, herase, h₂⟩ := h₁.eraseAt (h.tidy.insert _ value _ key.property) key (some value)
  rw [eraseShape_insert h.tidy _ key value hnone] at h₂
  obtain ⟨hroot, hcell⟩ := h.represents.cell_eq h₂
  exact ⟨t₁, t₂, hinsert, herase, hroot, hcell⟩

/-- A key that goes on where a stored one ends, in a tree of two keys. -/
theorem insert_erase_longer :
    ∃ t : TernaryTree ℕ, ∃ t₁ t₂,
      (empty : TernaryTree ℕ).run [.insert ⟨[98], by decide⟩ 1, .insert ⟨[97], by decide⟩ 2]
        = some t ∧
      t.insert ⟨[98, 99], by decide⟩ 3 = some t₁ ∧ t₁.erase ⟨[98, 99], by decide⟩ 3 = some t₂ ∧
      t₂.root = t.root ∧ ∀ a, t₂.heap.cell a = t.heap.cell a := by
  obtain ⟨t₁, t₂, h⟩ := insert_erase
    [.insert ⟨[98], by decide⟩ 1, .insert ⟨[97], by decide⟩ 2] _ rfl ⟨[98, 99], by decide⟩ rfl 3
  exact ⟨_, t₁, t₂, rfl, h⟩

end TernaryTree

end Napd
