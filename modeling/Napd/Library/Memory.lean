import Mathlib.Tactic

/-!
A block of memory as a list of cells, with checked writes.

* `splice`: overwrite the cells from a position on, a fault (`none`) when they do not fit;
  `getElem?_splice`: what the cells are then.
* `Pen`: a position in a block that advances over what is written through it. A pen that
  stands behind `done` and in front of `room` is `Pen.between done room`; `Pen.put_between` and
  `Pen.putEnd_between` say what a write makes of it.
-/

namespace Memory

variable {β : Type*}

/-- Overwrite the cells from position `i` on with `xs`. -/
def splice (m : List β) (i : ℕ) (xs : List β) : Option (List β) :=
  if i + xs.length ≤ m.length then some (m.take i ++ xs ++ m.drop (i + xs.length)) else none

/-- A splice behind `a` replaces what it covers of the rest. -/
lemma splice_append (a b xs : List β) (h : xs.length ≤ b.length) :
    splice (a ++ b) a.length xs = some (a ++ xs ++ b.drop xs.length) := by
  have hfit : a.length + xs.length ≤ (a ++ b).length := by
    rw [List.length_append]
    omega
  rw [splice, if_pos hfit, List.take_left, List.drop_append]
  simp

/-- What has the length of the block replaces all of it. -/
lemma splice_all {m xs : List β} (h : xs.length = m.length) : splice m 0 xs = some xs := by
  calc splice m 0 xs
      = some ([] ++ xs ++ m.drop xs.length) := splice_append [] m xs h.le
    _ = some xs := by rw [h, List.drop_length, List.append_nil, List.nil_append]

lemma splice_length {m m' xs : List β} {i : ℕ} (h : splice m i xs = some m') :
    m'.length = m.length := by
  rw [splice] at h
  split_ifs at h with hfit
  rw [← Option.some.inj h, List.length_append, List.length_append, List.length_take,
    List.length_drop]
  omega

lemma le_of_splice {m m' xs : List β} {i : ℕ} (h : splice m i xs = some m') :
    i + xs.length ≤ m.length := by
  rw [splice] at h
  split_ifs at h with hfit
  exact hfit

/-- A cell of a block that was written to. -/
lemma getElem?_splice {m m' xs : List β} {i : ℕ} (h : splice m i xs = some m') (k : ℕ) :
    m'[k]? = if i ≤ k ∧ k < i + xs.length then xs[k - i]? else m[k]? := by
  have hfit := le_of_splice h
  rw [splice, if_pos hfit] at h
  rw [← Option.some.inj h, List.append_assoc]
  have htake : (m.take i).length = i := List.length_take_of_le (by omega)
  split_ifs with hk
  · rw [List.getElem?_append_right (by omega), htake, List.getElem?_append_left (by omega)]
  · rcases Nat.lt_or_ge k i with hlt | hge
    · rw [List.getElem?_append_left (by omega), List.getElem?_take_of_lt hlt]
    · rw [List.getElem?_append_right (by omega), htake, List.getElem?_append_right (by omega),
        List.getElem?_drop]
      congr 1
      omega

/-- What stands in front of a splice stays. -/
lemma take_splice {m m' xs : List β} {i p : ℕ} (h : splice m i xs = some m') (hp : p ≤ i) :
    m'.take p = m.take p := by
  refine List.ext_getElem? fun k => ?_
  rw [List.getElem?_take, List.getElem?_take, getElem?_splice h]
  split_ifs with hk hin
  · omega
  · rfl
  · rfl

/-! ### Writing through an advancing position -/

/-- A block and a position in it. -/
structure Pen (β : Type*) where
  mem : List β
  pos : ℕ

namespace Pen

/-- Write `xs` and step behind it. -/
def put (w : Pen β) (xs : List β) : Option (Pen β) :=
  (splice w.mem w.pos xs).map fun m => ⟨m, w.pos + xs.length⟩

/-- Write `xs` and an end mark, and step behind `xs` only. -/
def putEnd (w : Pen β) (xs : List β) (mark : β) : Option (Pen β) :=
  (splice w.mem w.pos (xs ++ [mark])).map fun m => ⟨m, w.pos + xs.length⟩

/-- The pen behind `done` and in front of `room`. -/
def between (done room : List β) : Pen β := ⟨done ++ room, done.length⟩

@[simp] lemma between_mem (done room : List β) : (Pen.between done room).mem = done ++ room := rfl

@[simp] lemma between_pos (done room : List β) : (Pen.between done room).pos = done.length := rfl

lemma put_between (done room xs : List β) (h : xs.length ≤ room.length) :
    (Pen.between done room).put xs = some (Pen.between (done ++ xs) (room.drop xs.length)) := by
  rw [put, between_mem, between_pos, splice_append done room xs h, Option.map_some, Pen.between,
    List.length_append]

lemma putEnd_between (done room xs : List β) (mark : β) (h : xs.length < room.length) :
    (Pen.between done room).putEnd xs mark
      = some (Pen.between (done ++ xs) (mark :: room.drop (xs.length + 1))) := by
  have hfit : (xs ++ [mark]).length ≤ room.length := by
    rw [List.length_append, List.length_singleton]
    omega
  rw [putEnd, between_mem, between_pos, splice_append done room _ hfit, Option.map_some,
    Pen.between, List.length_append]
  simp

/-- A write that does not fault stays in the block. -/
lemma put_bounds {w w' : Pen β} {xs : List β} (h : w.put xs = some w') :
    w'.mem.length = w.mem.length ∧ w'.pos = w.pos + xs.length ∧ w'.pos ≤ w'.mem.length := by
  obtain ⟨m, hm, rfl⟩ := Option.map_eq_some_iff.mp h
  have hlen := splice_length hm
  have hfit := le_of_splice hm
  exact ⟨hlen, rfl, hlen ▸ hfit⟩

lemma putEnd_bounds {w w' : Pen β} {xs : List β} {mark : β} (h : w.putEnd xs mark = some w') :
    w'.mem.length = w.mem.length ∧ w'.pos = w.pos + xs.length ∧ w'.pos < w'.mem.length := by
  obtain ⟨m, hm, rfl⟩ := Option.map_eq_some_iff.mp h
  have hlen := splice_length hm
  have hfit := le_of_splice hm
  rw [List.length_append, List.length_singleton] at hfit
  exact ⟨hlen, rfl, by show w.pos + xs.length < m.length; omega⟩

/-- A run of steps that each keep a property keeps it. -/
lemma foldlM_keeps {α : Type*} {step : Pen β → α → Option (Pen β)} {P : Pen β → Prop}
    (hstep : ∀ w x w', P w → step w x = some w' → P w') (xs : List α) {w w' : Pen β} (h : P w)
    (hrun : xs.foldlM step w = some w') : P w' := by
  induction xs generalizing w with
  | nil => exact Option.some.inj hrun ▸ h
  | cons x xs ih =>
      rw [List.foldlM_cons] at hrun
      obtain ⟨w₁, h₁, hrun⟩ := Option.bind_eq_some_iff.mp hrun
      exact ih (hstep w x w₁ h h₁) hrun

/-- Steps that each append their output, one after another. -/
lemma foldlM_between {α : Type*} {step : Pen β → α → Option (Pen β)} {out : α → List β}
    (hstep : ∀ done room x, (out x).length ≤ room.length →
      step (Pen.between done room) x
        = some (Pen.between (done ++ out x) (room.drop (out x).length)))
    (xs : List α) (done room : List β) (hfit : (xs.flatMap out).length ≤ room.length) :
    xs.foldlM step (Pen.between done room)
      = some (Pen.between (done ++ xs.flatMap out) (room.drop (xs.flatMap out).length)) := by
  induction xs generalizing done room with
  | nil => simp
  | cons x xs ih =>
      rw [List.flatMap_cons, List.length_append] at hfit
      have hroom : (xs.flatMap out).length ≤ (room.drop (out x).length).length := by
        rw [List.length_drop]
        omega
      rw [List.foldlM_cons, hstep done room x (by omega)]
      simp only [Option.bind_eq_bind, Option.bind_some]
      rw [ih _ _ hroom, List.flatMap_cons, List.append_assoc, List.drop_drop, List.length_append]

end Pen

end Memory
