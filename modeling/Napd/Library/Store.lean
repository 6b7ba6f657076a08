import Mathlib.Tactic
import Mathlib.Data.List.Nodup
import Mathlib.Data.List.Perm.Basic

/-!
Stores of heap cells, and the exact account of what a store holds.

A store maps addresses to cells and hands out fresh addresses in order; reading,
writing or freeing through the null pointer or a dead address is a fault (`none`).
`Holds h l` says that the live cells of `h` are exactly the entries of the
association list `l`, each address once. It is invariant under permutation, so a
proof brings the cell it touches to the front and uses `Holds.write`, `Holds.free`
or `Holds.alloc`; nothing can leak, since the list is the whole store.
-/

namespace Linked

variable {ν : Type*}

/-- A pointer into a store; `none` is the null pointer. -/
abbrev Ptr := Option ℕ

/-- A store: the live cells, and the address the next allocation returns. Addresses
from `next` on are unused, so an allocated cell is never an old one. -/
structure Store (ν : Type*) where
  cell : ℕ → Option ν
  next : ℕ
  fresh : ∀ a, next ≤ a → cell a = none

namespace Store

/-- The store with no live cell. -/
def empty : Store ν := ⟨fun _ => none, 0, fun _ _ => rfl⟩

/-- The cell a pointer refers to; a fault for null and for dead addresses. -/
def read (h : Store ν) (p : Ptr) : Option ν := p.bind h.cell

/-- Overwrite the cell a pointer refers to. -/
def write (h : Store ν) (p : Ptr) (x : ν) : Option (Store ν) :=
  match p with
  | none => none
  | some a =>
      if ha : h.cell a = none then none
      else some ⟨Function.update h.cell a (some x), h.next, fun b hb => by
        have hne : b ≠ a := fun e => ha (h.fresh a (e ▸ hb))
        rw [Function.update_of_ne hne]
        exact h.fresh b hb⟩

/-- Allocate a cell; its address is `h.next`. -/
def alloc (h : Store ν) (x : ν) : Store ν :=
  ⟨Function.update h.cell h.next (some x), h.next + 1, fun b hb => by
    rw [Function.update_of_ne (by omega)]
    exact h.fresh b (by omega)⟩

/-- Free the cell a pointer refers to. -/
def free (h : Store ν) (p : Ptr) : Option (Store ν) :=
  match p with
  | none => none
  | some a =>
      if h.cell a = none then none
      else some ⟨Function.update h.cell a none, h.next, fun b hb => by
        by_cases hba : b = a
        · rw [hba, Function.update_self]
        · rw [Function.update_of_ne hba]
          exact h.fresh b hb⟩

/-- The live addresses. -/
def Live (h : Store ν) (a : ℕ) : Prop := h.cell a ≠ none

@[simp] lemma read_none (h : Store ν) : h.read none = none := rfl

@[simp] lemma read_some (h : Store ν) (a : ℕ) : h.read (some a) = h.cell a := rfl

lemma live_of_cell {h : Store ν} {a : ℕ} {x : ν} (ha : h.cell a = some x) : h.Live a := by
  rw [Live, ha]
  exact Option.some_ne_none x

lemma live_alloc (h : Store ν) (x : ν) (a : ℕ) :
    (h.alloc x).Live a ↔ h.Live a ∨ a = h.next := by
  by_cases ha : a = h.next
  · simp [ha, Live, alloc]
  · simp [ha, Live, alloc]

/-- A live cell can be freed, and only that cell is gone. -/
lemma exists_free {h : Store ν} {a : ℕ} (ha : h.Live a) :
    ∃ h', h.free (some a) = some h' ∧ h'.cell a = none ∧ ∀ b, b ≠ a → h'.cell b = h.cell b :=
  ⟨_, if_neg ha, Function.update_self .., fun _ hb => Function.update_of_ne hb ..⟩

/-- What is live after a cell is freed. -/
lemma live_freed {h h' : Store ν} {a : ℕ} (hdead : h'.cell a = none)
    (hsame : ∀ b, b ≠ a → h'.cell b = h.cell b) (b : ℕ) : h'.Live b ↔ h.Live b ∧ b ≠ a := by
  by_cases hb : b = a
  · simp [hb, Live, hdead]
  · rw [Live, hsame b hb, ← Live, and_iff_left hb]

lemma ne_next {h : Store ν} {a : ℕ} (ha : h.Live a) : a ≠ h.next :=
  fun e => ha (h.fresh a e.ge)

@[simp] lemma alloc_next (h : Store ν) (x : ν) : (h.alloc x).next = h.next + 1 := rfl

end Store

open Store

/-- The live cells of `h` are exactly the entries of `l`, each address once. -/
structure Holds (h : Store ν) (l : List (ℕ × ν)) : Prop where
  nodup : (l.map Prod.fst).Nodup
  cell_iff : ∀ a x, h.cell a = some x ↔ (a, x) ∈ l

namespace Holds

variable {h : Store ν} {l l' : List (ℕ × ν)} {a : ℕ} {x y : ν}

lemma empty : Holds (Store.empty : Store ν) [] :=
  ⟨by simp, fun a x => by simp [Store.empty]⟩

lemma perm (hl : Holds h l) (hp : l.Perm l') : Holds h l' :=
  ⟨(hp.map Prod.fst).nodup_iff.mp hl.nodup, fun a x => by rw [hl.cell_iff, hp.mem_iff]⟩

lemma read_eq (hl : Holds h l) (ha : (a, x) ∈ l) : h.read (some a) = some x :=
  (hl.cell_iff a x).mpr ha

/-- A cell of the list is read where it is. -/
lemma cell_head (hl : Holds h ((a, x) :: l)) : h.cell a = some x :=
  (hl.cell_iff a x).mpr (by simp)

lemma live_iff (hl : Holds h l) : h.Live a ↔ a ∈ l.map Prod.fst := by
  rw [Store.Live, Option.ne_none_iff_exists', List.mem_map]
  constructor
  · rintro ⟨x, hx⟩
    exact ⟨(a, x), (hl.cell_iff a x).mp hx, rfl⟩
  · rintro ⟨⟨b, x⟩, hmem, rfl⟩
    exact ⟨x, (hl.cell_iff b x).mpr hmem⟩

/-- Two stores that hold the same entries have the same cells. -/
lemma cell_eq {h' : Store ν} (hl : Holds h l) (hl' : Holds h' l) (a : ℕ) :
    h'.cell a = h.cell a := by
  refine Option.ext fun x => ?_
  rw [hl.cell_iff, hl'.cell_iff]

/-- The address at the head does not occur again. -/
lemma not_mem_tail (hl : Holds h ((a, x) :: l)) : ∀ z, (a, z) ∉ l := fun z hz => by
  have hnd := hl.nodup
  rw [List.map_cons, List.nodup_cons] at hnd
  exact hnd.1 (List.mem_map.mpr ⟨(a, z), hz, rfl⟩)

/-- Writing through a pointer changes its cell and no other. -/
lemma write (hl : Holds h ((a, x) :: l)) (y : ν) :
    ∃ h', h.write (some a) y = some h' ∧ Holds h' ((a, y) :: l) ∧ h'.next = h.next := by
  have hne : h.cell a ≠ none := by rw [hl.cell_head]; simp
  refine ⟨_, dif_neg hne, ⟨by simpa using hl.nodup, fun b z => ?_⟩, rfl⟩
  by_cases hba : b = a
  · subst hba
    simp [hl.not_mem_tail z, eq_comm]
  · have hold := hl.cell_iff b z
    simp only [List.mem_cons, Prod.mk.injEq, hba, false_and, false_or] at hold ⊢
    rw [Function.update_of_ne hba, hold]

/-- Freeing a pointer removes its cell and no other. -/
lemma free (hl : Holds h ((a, x) :: l)) :
    ∃ h', h.free (some a) = some h' ∧ Holds h' l ∧ h'.next = h.next := by
  have hne : h.cell a ≠ none := by rw [hl.cell_head]; simp
  have hnd := hl.nodup
  rw [List.map_cons, List.nodup_cons] at hnd
  refine ⟨_, if_neg hne, ⟨hnd.2, fun b z => ?_⟩, rfl⟩
  by_cases hba : b = a
  · subst hba
    simp [hl.not_mem_tail z]
  · have hold := hl.cell_iff b z
    simp only [List.mem_cons, Prod.mk.injEq, hba, false_and, false_or] at hold
    rw [← hold]
    simp only [Function.update_of_ne hba]

/-- Allocation adds one cell, at an address that was not in use. -/
lemma alloc (hl : Holds h l) (x : ν) : Holds (h.alloc x) ((h.next, x) :: l) := by
  have hnot : ∀ z, (h.next, z) ∉ l := fun z hz => by
    have hsome := (hl.cell_iff h.next z).mpr hz
    rw [h.fresh h.next le_rfl] at hsome
    cases hsome
  refine ⟨?_, fun b z => ?_⟩
  · rw [List.map_cons, List.nodup_cons]
    refine ⟨fun hmem => ?_, hl.nodup⟩
    obtain ⟨⟨b, z⟩, hz, rfl⟩ := List.mem_map.mp hmem
    exact hnot z hz
  · by_cases hb : b = h.next
    · subst hb
      simp [Store.alloc, hnot z, eq_comm]
    · have hold := hl.cell_iff b z
      simp only [List.mem_cons, Prod.mk.injEq, hb, false_and, false_or]
      rw [← hold]
      simp only [Store.alloc, Function.update_of_ne hb]

/-- A store never holds more cells than it has allocated. -/
lemma length_le_next (hl : Holds h l) : l.length ≤ h.next := by
  have hsub : l.map Prod.fst ⊆ List.range h.next := by
    intro a ha
    rw [List.mem_range]
    by_contra hge
    exact (hl.live_iff.mpr ha) (h.fresh a (by omega))
  have hlen := (hl.nodup.subperm hsub).length_le
  simpa using hlen

end Holds

end Linked
