import Napd.Library.TernaryZipper
import Napd.Ternary.Model

/-!
How a `TernaryTree` in its store represents a ternary search tree labelled with
addresses: `cells` lists the nodes of the tree as the store has them, and `Represents`
says that the store holds exactly these and the root pointer is the tree's. `Focus` is
the same for a tree with a hole, so that a pointer operation is accounted for where it
happens.
-/

namespace Napd

namespace TernaryTree

open Linked TernarySearch

variable {Value : Type}

/-- Trees labelled with the addresses of their nodes. -/
abbrev Shape (Value : Type) := SearchTree ℕ CChar Value

abbrev Context (Value : Type) := List (Frame ℕ CChar Value)

/-- The nodes of a tree, each at its address. -/
def cells : Shape Value → List (ℕ × Node Value)
  | .nil => []
  | .node i c lo eq hi vs =>
      (i, ⟨c, lo.root, eq.root, hi.root, vs⟩) :: (cells lo ++ cells eq ++ cells hi)

/-- A list that has the nodes of a tree has the root's node and those of its subtrees. -/
lemma cells_node_subset {i : ℕ} {c : CChar} {lo eq hi : Shape Value} {vs : Finset Value}
    {l : List (ℕ × Node Value)} (h : ∀ x ∈ cells (.node i c lo eq hi vs), x ∈ l) :
    (i, ⟨c, lo.root, eq.root, hi.root, vs⟩) ∈ l ∧ (∀ x ∈ cells lo, x ∈ l) ∧
      (∀ x ∈ cells eq, x ∈ l) ∧ ∀ x ∈ cells hi, x ∈ l := by
  simp only [cells, List.forall_mem_cons, List.forall_mem_append, and_assoc] at h
  exact h

/-- The store holds the nodes of `T` and no others, and the root pointer is the root. -/
structure Represents (t : TernaryTree Value) (T : Shape Value) : Prop where
  holds : Holds t.heap (cells T)
  root_eq : t.root = T.root

/-- The node of a frame when the hole holds the pointer `r`. -/
def frameNode : Frame ℕ CChar Value → Ptr → Node Value
  | .inLo _ c eq hi vs, r => ⟨c, r, eq.root, hi.root, vs⟩
  | .inEq _ c lo hi vs, r => ⟨c, lo.root, r, hi.root, vs⟩
  | .inHi _ c lo eq vs, r => ⟨c, lo.root, eq.root, r, vs⟩

/-- The nodes of the two full subtrees of a frame. -/
def frameCells : Frame ℕ CChar Value → List (ℕ × Node Value)
  | .inLo _ _ eq hi _ => cells eq ++ cells hi
  | .inEq _ _ lo hi _ => cells lo ++ cells hi
  | .inHi _ _ lo eq _ => cells lo ++ cells eq

/-- The link that is the hole of a frame. -/
def frameLink : Frame ℕ CChar Value → Link
  | .inLo i _ _ _ _ => .lo i
  | .inEq i _ _ _ _ => .eq i
  | .inHi i _ _ _ _ => .hi i

/-- The nodes around a hole that holds the pointer `r`. -/
def holeCells : Context Value → Ptr → List (ℕ × Node Value)
  | [], _ => []
  | f :: fs, r => (f.label, frameNode f r) :: (frameCells f ++ holeCells fs (some f.label))

/-- The root pointer of a tree whose hole holds the pointer `r`. -/
def holeRoot : Context Value → Ptr → Ptr
  | [], r => r
  | f :: fs, _ => holeRoot fs (some f.label)

/-- The link that is the hole, or `pp` if there is no frame. -/
def holeLink (fs : Context Value) (pp : Link) : Link :=
  match fs with
  | [] => pp
  | f :: _ => frameLink f

@[simp] lemma holeLink_concat (fs : Context Value) (f : Frame ℕ CChar Value) (pp : Link) :
    holeLink (fs ++ [f]) pp = holeLink fs (frameLink f) := by
  cases fs <;> rfl

lemma cells_fill (f : Frame ℕ CChar Value) (T : Shape Value) :
    (cells (f.fill T)).Perm ((f.label, frameNode f T.root) :: (frameCells f ++ cells T)) := by
  cases f with
  | inLo i c eq hi vs =>
      refine List.Perm.cons _ ?_
      simp only [frameCells]
      rw [List.append_assoc]
      exact List.perm_append_comm
  | inEq i c lo hi vs =>
      refine List.Perm.cons _ ?_
      simp only [frameCells, List.append_assoc]
      exact List.Perm.append_left _ List.perm_append_comm
  | inHi i c lo eq vs => exact List.Perm.cons _ (List.Perm.refl _)

lemma root_fill (f : Frame ℕ CChar Value) (T : Shape Value) : (f.fill T).root = some f.label := by
  cases f <;> rfl

lemma cells_plug (fs : Context Value) (T : Shape Value) :
    (cells (plug fs T)).Perm (holeCells fs T.root ++ cells T) := by
  induction fs generalizing T with
  | nil => simp [holeCells]
  | cons f fs ih =>
      rw [plug_cons]
      refine (ih (f.fill T)).trans ?_
      rw [root_fill]
      refine (List.Perm.append_left _ (cells_fill f T)).trans ?_
      simp only [holeCells, List.cons_append]
      refine List.perm_middle.trans (List.Perm.cons _ ?_)
      rw [← List.append_assoc]
      exact List.Perm.append_right _ List.perm_append_comm

lemma root_plug (fs : Context Value) (T : Shape Value) :
    (plug fs T).root = holeRoot fs T.root := by
  induction fs generalizing T with
  | nil => rfl
  | cons f fs ih => rw [plug_cons, ih, root_fill]; rfl

lemma holeCells_append (gs fs : Context Value) (r : Ptr) :
    holeCells (gs ++ fs) r = holeCells gs r ++ holeCells fs (holeRoot gs r) := by
  induction gs generalizing r with
  | nil => rfl
  | cons f gs ih => simp only [List.cons_append, holeCells, holeRoot, ih, List.append_assoc]

lemma holeRoot_append (gs fs : Context Value) (r : Ptr) :
    holeRoot (gs ++ fs) r = holeRoot fs (holeRoot gs r) := by
  induction gs generalizing r with
  | nil => rfl
  | cons f gs ih => exact ih _

/-- The nodes around the hole `fs`, which holds the pointer `r`, together with the nodes
`l`, are the store. -/
structure Focus (t : TernaryTree Value) (fs : Context Value) (r : Ptr)
    (l : List (ℕ × Node Value)) : Prop where
  holds : Holds t.heap (holeCells fs r ++ l)
  root_eq : t.root = holeRoot fs r

lemma Represents.focus {t : TernaryTree Value} {fs : Context Value} {T : Shape Value}
    (h : Represents t (plug fs T)) : Focus t fs T.root (cells T) :=
  ⟨h.holds.perm (cells_plug fs T), h.root_eq.trans (root_plug fs T)⟩

lemma Focus.represents {t : TernaryTree Value} {fs : Context Value} {T : Shape Value}
    (h : Focus t fs T.root (cells T)) : Represents t (plug fs T) :=
  ⟨h.holds.perm (cells_plug fs T).symm, h.root_eq.trans (root_plug fs T).symm⟩

lemma Focus.perm {t : TernaryTree Value} {fs : Context Value} {r : Ptr}
    {l l' : List (ℕ × Node Value)} (h : Focus t fs r l) (hp : l.Perm l') : Focus t fs r l' :=
  ⟨h.holds.perm (List.Perm.append_left _ hp), h.root_eq⟩

lemma holeCells_zoom (fs gs : Context Value) (T : Shape Value) (l : List (ℕ × Node Value)) :
    (holeCells fs (plug gs T).root ++ (cells (plug gs T) ++ l)).Perm
      (holeCells (gs ++ fs) T.root ++ (cells T ++ l)) := by
  rw [root_plug, holeCells_append]
  refine (List.Perm.append_left _ (List.Perm.append_right _ (cells_plug gs T))).trans ?_
  rw [List.append_assoc, ← List.append_assoc]
  exact List.Perm.append_right _ List.perm_append_comm

/-- Move the hole inwards, to a hole of the tree that fills it. -/
lemma Focus.zoom {t : TernaryTree Value} {fs gs : Context Value} {T : Shape Value}
    {l : List (ℕ × Node Value)} :
    Focus t fs (plug gs T).root (cells (plug gs T) ++ l)
      ↔ Focus t (gs ++ fs) T.root (cells T ++ l) := by
  have hroot : holeRoot (gs ++ fs) T.root = holeRoot fs (plug gs T).root := by
    rw [holeRoot_append, root_plug]
  constructor
  · exact fun h => ⟨h.holds.perm (holeCells_zoom fs gs T l), h.root_eq.trans hroot.symm⟩
  · exact fun h => ⟨h.holds.perm (holeCells_zoom fs gs T l).symm, h.root_eq.trans hroot⟩

lemma Represents.empty : Represents (empty : TernaryTree Value) .nil :=
  ⟨Holds.empty, rfl⟩

/-- A node of a represented tree is read at its address. -/
lemma Represents.length_lt_moves {t : TernaryTree Value} {T : Shape Value}
    (h : Represents t T) : (cells T).length < t.moves :=
  Nat.lt_succ_of_le h.holds.length_le_next

/-! ### Changing one node -/

/-- Changing a node of the store changes its entry. -/
lemma update_eq {t : TernaryTree Value} {i : ℕ} {n : Node Value} {l : List (ℕ × Node Value)}
    (h : Holds t.heap ((i, n) :: l)) (f : Node Value → Node Value) :
    ∃ t', t.update (some i) f = some t' ∧ Holds t'.heap ((i, f n) :: l) ∧
      t'.root = t.root ∧ t'.moves = t.moves := by
  obtain ⟨h', hw, hh, hnext⟩ := h.write (f n)
  refine ⟨⟨h', t.root⟩, ?_, hh, rfl, congrArg (· + 1) hnext⟩
  simp [update, h.cell_head, hw]

/-- Writing the link that is the hole. -/
lemma Focus.set {t : TernaryTree Value} {fs : Context Value} {r : Ptr}
    {l : List (ℕ × Node Value)} (h : Focus t fs r l) (q : Ptr) :
    ∃ t', (holeLink fs .root).set t q = some t' ∧ Focus t' fs q l ∧ t'.moves = t.moves := by
  cases fs with
  | nil => exact ⟨{ t with root := q }, rfl, ⟨h.holds, rfl⟩, rfl⟩
  | cons f fs =>
      cases f with
      | inLo i c eq hi vs =>
          obtain ⟨t', hu, hh, hroot, hm⟩ := update_eq h.holds fun n => { n with lo := q }
          exact ⟨t', hu, ⟨hh, hroot.trans h.root_eq⟩, hm⟩
      | inEq i c lo hi vs =>
          obtain ⟨t', hu, hh, hroot, hm⟩ := update_eq h.holds fun n => { n with eq := q }
          exact ⟨t', hu, ⟨hh, hroot.trans h.root_eq⟩, hm⟩
      | inHi i c lo eq vs =>
          obtain ⟨t', hu, hh, hroot, hm⟩ := update_eq h.holds fun n => { n with hi := q }
          exact ⟨t', hu, ⟨hh, hroot.trans h.root_eq⟩, hm⟩

/-- Changing the set of a node. -/
lemma Represents.update_values {t : TernaryTree Value} {fs : Context Value} {i : ℕ} {c : CChar}
    {lo eq hi : Shape Value} {vs : Finset Value}
    (h : Represents t (plug fs (.node i c lo eq hi vs))) (f : Finset Value → Finset Value) :
    ∃ t', t.update (some i) (fun n => { n with values := f n.values }) = some t' ∧
      Represents t' (plug fs (.node i c lo eq hi (f vs))) ∧ t'.moves = t.moves := by
  have hfocus := h.focus
  obtain ⟨t', hu, hh, hroot, hm⟩ := update_eq (hfocus.holds.perm List.perm_middle)
    fun n => { n with values := f n.values }
  refine ⟨t', hu, Focus.represents ⟨hh.perm List.perm_middle.symm, ?_⟩, hm⟩
  exact hroot.trans hfocus.root_eq

/-- Changing the set at a key, at the key's last node. -/
lemma Represents.update_at {t : TernaryTree Value} {T : Shape Value} (h : Represents t T)
    {key : List CChar} {vs : Finset Value} {i : ℕ} (hfind : T.find key = some vs)
    (hlast : T.lastNode key = some i) (f : Finset Value → Finset Value) :
    ∃ t' n, t.update (some i) (fun n => { n with values := f n.values }) = some t' ∧
      Represents t' (T.modify f key) ∧ t'.heap.read (some i) = some n ∧ n.values = f vs := by
  obtain ⟨fs, j, c, lo, eq, hi, hlast', hplug, hmod⟩ := exists_plug_of_find hfind
  obtain rfl : i = j := Option.some.inj (hlast.symm.trans hlast')
  rw [hplug] at h
  obtain ⟨t', hu, hrep, _⟩ := h.update_values f
  refine ⟨t', ⟨c, lo.root, eq.root, hi.root, f vs⟩, hu, hmod f ▸ hrep, ?_, rfl⟩
  exact hrep.focus.holds.read_eq (List.mem_append_right _ List.mem_cons_self)

end TernaryTree

end Napd
