import Napd.Ternary.Cells

/-!
`erase` on a represented tree: the first loop finds the last node of the key and its last
branch, and what follows turns the tree into the one with the key removed.
-/

namespace Napd

namespace TernaryTree

open Linked TernarySearch

variable {Value : Type}

/-! ### The first loop -/

/-- A key that is not there leaves no node. -/
lemma eraseLoop_absent {h : Store (Node Value)} {l : List (ℕ × Node Value)} (hl : Holds h l)
    (T : Shape Value) (fuel : ℕ) (pp lb lbp : Ptr) (s : List CChar) (hT : ∀ x ∈ cells T, x ∈ l)
    (hfuel : (cells T).length < fuel) (habs : T.find s = none) :
    ∃ w, eraseLoop h fuel T.root pp lb lbp s = some w ∧ w.p = none := by
  induction T generalizing fuel pp lb lbp s with
  | nil =>
      cases fuel with
      | zero => omega
      | succ fuel => exact ⟨_, rfl, rfl⟩
  | node i c lo eq hi vs ihl ihe ihh =>
      cases fuel with
      | zero => omega
      | succ fuel =>
          obtain ⟨hself, hTlo, hTeq, hThi⟩ := cells_node_subset hT
          have hread := hl.read_eq hself
          simp only [cells, List.length_cons, List.length_append] at hfuel
          simp only [SearchTree.root_node, eraseLoop, hread, Option.bind_eq_bind, Option.bind_some,
            toInt_sub_eq_zero_iff, toInt_sub_neg_iff]
          cases hturn : SearchTree.turn c s with
          | lo =>
              simp only [SearchTree.find, hturn] at habs
              have hlt := SearchTree.turn_lo_iff.mp hturn
              rw [if_neg hlt.ne, if_pos hlt]
              exact ihl fuel _ _ _ s hTlo (by omega) habs
          | stop => simp only [SearchTree.find, hturn, reduceCtorEq] at habs
          | eq =>
              simp only [SearchTree.find, hturn] at habs
              obtain ⟨hc, h0⟩ := SearchTree.turn_eq_iff.mp hturn
              rw [if_pos hc, if_neg (by rwa [hc])]
              exact ihe fuel _ _ _ s.tail hTeq (by omega) habs
          | hi =>
              simp only [SearchTree.find, hturn] at habs
              have hlt := SearchTree.turn_hi_iff.mp hturn
              rw [if_neg hlt.ne', if_neg hlt.asymm]
              exact ihh fuel _ _ _ s hThi (by omega) habs

/-- The branch test of the loop. -/
lemma branch_eq_false_iff (lo hi : Shape Value) :
    (lo.root.isSome || hi.root.isSome) = false ↔ lo = .nil ∧ hi = .nil := by
  cases lo <;> cases hi <;> simp

lemma not_nil_of_branch {lo hi : Shape Value} (h : (lo.root.isSome || hi.root.isSome) = true) :
    ¬ (lo = .nil ∧ hi = .nil) := by
  rw [← branch_eq_false_iff, h]
  simp

/-- A key that is there leaves its last node, and its last branch with its parent; in a
chain, where there is no branch, what was recorded above it. -/
lemma eraseLoop_spec {h : Store (Node Value)} {l : List (ℕ × Node Value)} (hl : Holds h l)
    (T : Shape Value) (fuel : ℕ) (pp lb lbp : Ptr) (s : List CChar) (hT : ∀ x ∈ cells T, x ∈ l)
    (hfuel : (cells T).length < fuel) (htidy : T.Tidy) {vs : Finset Value}
    (hfind : T.find s = some vs) :
    (T.EqOnly ∧ eraseLoop h fuel T.root pp lb lbp s = some ⟨T.lastNode s, lb, lbp⟩) ∨
      ∃ fs b c lo hi, LastBranch T s fs b c lo hi ∧
        eraseLoop h fuel T.root pp lb lbp s = some ⟨T.lastNode s, some b, parent fs pp⟩ := by
  induction T generalizing fuel pp lb lbp s with
  | nil => cases hfind
  | node i c lo eq hi ws ihl ihe ihh =>
      cases fuel with
      | zero => omega
      | succ fuel =>
          obtain ⟨tlo, teq, thi, hend, _⟩ := htidy
          obtain ⟨hself, hTlo, hTeq, hThi⟩ := cells_node_subset hT
          have hread := hl.read_eq hself
          simp only [cells, List.length_cons, List.length_append] at hfuel
          simp only [SearchTree.root_node, eraseLoop, hread, Option.bind_eq_bind, Option.bind_some,
            toInt_sub_eq_zero_iff, toInt_sub_neg_iff, SearchTree.lastNode]
          cases hturn : SearchTree.turn c s with
          | lo =>
              -- the key goes on in the lower subtree, whose root is recorded
              simp only [SearchTree.find, hturn] at hfind
              have hlt := SearchTree.turn_lo_iff.mp hturn
              rw [if_neg hlt.ne, if_pos hlt]
              rcases ihl fuel (some i) lo.root (some i) s hTlo (by omega)
                tlo hfind with ⟨hchain, hrun⟩ | ⟨fs, b, d, lo', hi', hlast, hrun⟩
              · cases lo with
                | nil => cases hfind
                | node => exact Or.inr ⟨_, _, _, _, _, .of_chain_lo hchain hfind hturn, hrun⟩
              · exact Or.inr ⟨_, b, d, lo', hi', hlast.inLo hturn, by rw [hrun, parent_concat]; rfl⟩
          | stop =>
              -- the key ends here
              simp only [SearchTree.find, hturn] at hfind
              obtain ⟨h0, rfl⟩ := SearchTree.turn_stop_iff.mp hturn
              simp only [h0, if_true]
              cases hbr : (lo.root.isSome || hi.root.isSome) with
              | false =>
                  obtain ⟨rfl, rfl⟩ := (branch_eq_false_iff lo hi).mp hbr
                  exact Or.inl ⟨⟨rfl, rfl, (hend rfl).1 ▸ trivial⟩, rfl⟩
              | true =>
                  have hne := not_nil_of_branch hbr
                  exact Or.inr ⟨[], i, 0, lo, hi, .here_stop hne hturn (hend rfl).1, rfl⟩
          | eq =>
              -- the key goes on below; this node is a branch if it has another subtree
              simp only [SearchTree.find, hturn] at hfind
              obtain ⟨hc, h0⟩ := SearchTree.turn_eq_iff.mp hturn
              rw [if_pos hc, if_neg (by rwa [hc])]
              rcases ihe fuel (some i) _ _ s.tail hTeq (by omega)
                teq hfind with ⟨hchain, hrun⟩ | ⟨fs, b, d, lo', hi', hlast, hrun⟩
              · rw [hrun]
                cases hbr : (lo.root.isSome || hi.root.isSome) with
                | false =>
                    obtain ⟨rfl, rfl⟩ := (branch_eq_false_iff lo hi).mp hbr
                    exact Or.inl ⟨⟨rfl, rfl, hchain⟩, rfl⟩
                | true =>
                    have hne := not_nil_of_branch hbr
                    exact Or.inr ⟨[], i, c, lo, hi, .here_eq hne hturn hchain hfind, rfl⟩
              · exact Or.inr ⟨_, b, d, lo', hi', hlast.inEq hturn, by rw [hrun, parent_concat]; rfl⟩
          | hi =>
              -- the key goes on in the upper subtree, whose root is recorded
              simp only [SearchTree.find, hturn] at hfind
              have hlt := SearchTree.turn_hi_iff.mp hturn
              rw [if_neg hlt.ne', if_neg hlt.asymm]
              rcases ihh fuel (some i) hi.root (some i) s hThi (by omega)
                thi hfind with ⟨hchain, hrun⟩ | ⟨fs, b, d, lo', hi', hlast, hrun⟩
              · cases hi with
                | nil => cases hfind
                | node => exact Or.inr ⟨_, _, _, _, _, .of_chain_hi hchain hfind hturn, hrun⟩
              · exact Or.inr ⟨_, b, d, lo', hi', hlast.inHi hturn, by rw [hrun, parent_concat]; rfl⟩

/-! ### Taking the last branch out -/

lemma exists_mem_cells_root {T : Shape Value} {b : ℕ} (h : T.root = some b) :
    ∃ n, (b, n) ∈ cells T := by
  cases T with
  | nil => cases h
  | node i c lo eq hi vs => exact ⟨_, by rw [← Option.some.inj h]; exact List.mem_cons_self⟩

/-- The node in the hole is not a root of the other subtrees of the frame. -/
lemma Focus.root_ne {t : TernaryTree Value} {f : Frame ℕ CChar Value} {fs : Context Value}
    {r : Ptr} {b : ℕ} {n : Node Value} {l : List (ℕ × Node Value)}
    (h : Focus t (f :: fs) r ((b, n) :: l)) {T : Shape Value}
    (hT : ∀ x ∈ cells T, x ∈ frameCells f) : T.root ≠ some b := by
  intro hroot
  obtain ⟨m, hm⟩ := exists_mem_cells_root hroot
  refine (h.holds.perm List.perm_middle).not_mem_tail m ?_
  simp only [holeCells, List.cons_append, List.mem_cons, List.mem_append]
  exact Or.inr (Or.inl (Or.inl (hT _ hm)))

/-- `relink` writes the link that holds the last branch. -/
lemma Focus.relink {t : TernaryTree Value} {fs : Context Value} {b : ℕ} {n : Node Value}
    {l : List (ℕ × Node Value)} (h : Focus t fs (some b) ((b, n) :: l)) (q : Ptr) :
    ∃ t', t.relink (some b) (parent fs none) q = some t' ∧ Focus t' fs q ((b, n) :: l) ∧
      t'.moves = t.moves := by
  obtain ⟨t', hset, hfocus, hm⟩ := h.set q
  refine ⟨t', ?_, hfocus, hm⟩
  rw [← hset]
  cases fs with
  | nil => rfl
  | cons f fs =>
      have hread : t.heap.read (some f.label) = some (frameNode f (some b)) := h.holds.cell_head
      cases f with
      | inLo i c eq hi vs =>
          simp only [parent, TernaryTree.relink, hread, Option.bind_eq_bind, Option.bind_some,
            frameNode, if_true]
          rfl
      | inHi i c lo eq vs =>
          have hlo := h.root_ne fun x (hx : x ∈ cells lo) => by simp [frameCells, hx]
          simp only [parent, TernaryTree.relink, hread, Option.bind_eq_bind, Option.bind_some,
            frameNode, if_true, if_neg hlo]
          rfl
      | inEq i c lo hi vs =>
          have hlo := h.root_ne fun x (hx : x ∈ cells lo) => by simp [frameCells, hx]
          have hhi := h.root_ne fun x (hx : x ∈ cells hi) => by simp [frameCells, hx]
          simp only [parent, TernaryTree.relink, hread, Option.bind_eq_bind, Option.bind_some,
            frameNode, if_neg hlo, if_neg hhi]
          rfl

/-- `unlinkLeaf` clears the link that holds the last branch. -/
lemma Focus.unlinkLeaf {t : TernaryTree Value} {f : Frame ℕ CChar Value} {fs : Context Value}
    {b : ℕ} {n : Node Value} {l : List (ℕ × Node Value)}
    (h : Focus t (f :: fs) (some b) ((b, n) :: l)) (hf : f.SameLevel) :
    ∃ t', t.unlinkLeaf (some b) (some f.label) = some t' ∧
      Focus t' (f :: fs) none ((b, n) :: l) ∧ t'.moves = t.moves := by
  obtain ⟨t', hset, hfocus, hm⟩ := h.set none
  refine ⟨t', ?_, hfocus, hm⟩
  rw [← hset]
  have hread : t.heap.read (some f.label) = some (frameNode f (some b)) := h.holds.cell_head
  cases f with
  | inLo i c eq hi vs =>
      simp only [TernaryTree.unlinkLeaf, hread, Option.bind_eq_bind, Option.bind_some, frameNode,
        if_true]
      rfl
  | inHi i c lo eq vs =>
      have hlo := h.root_ne fun x (hx : x ∈ cells lo) => by simp [frameCells, hx]
      simp only [TernaryTree.unlinkLeaf, hread, Option.bind_eq_bind, Option.bind_some, frameNode,
        if_neg hlo]
      rfl
  | inEq i c lo hi vs => exact absurd hf id

/-- The loop to the leftmost node finds the hole that a hung tree fills. -/
lemma leftmost_spec {h : Store (Node Value)} {l : List (ℕ × Node Value)} (hl : Holds h l)
    (T : Shape Value) (fuel : ℕ) (hT : ∀ x ∈ cells T, x ∈ l) (hfuel : (cells T).length < fuel)
    (hne : T ≠ .nil) :
    ∃ gs q c eq hi vs, leftmost h fuel T.root = some (some q) ∧
      ∀ S, T.hang S = plug gs (.node q c S eq hi vs) := by
  induction T generalizing fuel with
  | nil => exact absurd rfl hne
  | node i c lo eq hi vs ihl _ _ =>
      cases fuel with
      | zero => omega
      | succ fuel =>
          obtain ⟨hself, hTlo, hTeq, hThi⟩ := cells_node_subset hT
          have hread := hl.read_eq hself
          simp only [cells, List.length_cons, List.length_append] at hfuel
          simp only [leftmost, SearchTree.root_node, hread, Option.bind_eq_bind, Option.bind_some]
          cases lo with
          | nil => exact ⟨[], i, c, eq, hi, vs, rfl, fun S => rfl⟩
          | node j d lo' eq' hi' ws =>
              obtain ⟨gs, q, c', eq'', hi'', vs', hrun, hhang⟩ :=
                ihl fuel hTlo (by omega) (by simp)
              refine ⟨gs ++ [.inLo i c eq hi vs], q, c', eq'', hi'', vs', hrun, fun S => ?_⟩
              rw [plug_concat, ← hhang]
              rfl

/-- `hangUnder` hangs the lower subtree of the last branch under its upper one. -/
lemma Focus.hangUnder {t : TernaryTree Value} {fs : Context Value} {hi lo : Shape Value}
    {l : List (ℕ × Node Value)} (h : Focus t fs hi.root (cells hi ++ (cells lo ++ l)))
    (hne : hi ≠ .nil) :
    ∃ t', t.hangUnder hi.root lo.root = some t' ∧
      Focus t' fs (hi.hang lo).root (cells (hi.hang lo) ++ l) ∧ t'.moves = t.moves := by
  cases lo with
  | nil => exact ⟨t, rfl, by rw [SearchTree.hang_nil]; simpa [cells] using h, rfl⟩
  | node j d lo' eq' hi' ws =>
      have hlen : (cells hi).length < t.moves := by
        have hle := h.holds.length_le_next
        simp only [List.length_append] at hle
        exact Nat.lt_succ_of_le (by omega)
      obtain ⟨gs, q, c, eq, hi₂, vs, hrun, hhang⟩ := leftmost_spec h.holds hi t.moves
        (fun x hx => by simp [hx]) hlen hne
      -- the hole is the null `lo` of the leftmost node
      have hnil : hi = plug (.inLo q c eq hi₂ vs :: gs) .nil := by
        rw [← SearchTree.hang_nil hi, hhang]
        rfl
      have hset := h
      rw [hnil, Focus.zoom] at hset
      obtain ⟨t', hset, hfocus, hm⟩ := hset.set (some j)
      refine ⟨t', ?_, ?_, hm⟩
      · simp only [TernaryTree.hangUnder, SearchTree.root_node, hrun, Option.bind_eq_bind,
          Option.bind_some]
        exact hset
      · have hplug : ∀ S : Shape Value, hi.hang S = plug (.inLo q c eq hi₂ vs :: gs) S := hhang
        rw [hplug, Focus.zoom]
        simpa [cells] using hfocus

/-! ### Deleting the detached chain -/

/-- The last loop of `erase` deletes the first node and the chain below it. -/
lemma deleteLoop_spec (E : Shape Value) (hE : E.EqOnly) {h : Store (Node Value)} {b : ℕ}
    {n : Node Value} {l : List (ℕ × Node Value)} (hl : Holds h ((b, n) :: (cells E ++ l)))
    (hn : n.eq = E.root) (fuel : ℕ) (hfuel : (cells E).length < fuel) :
    ∃ h', deleteLoop h fuel (some b) = some h' ∧ Holds h' l := by
  induction E generalizing h b n fuel with
  | nil =>
      cases fuel with
      | zero => omega
      | succ fuel =>
          obtain ⟨h', hfree, hh, _⟩ := hl.free
          refine ⟨h', ?_, hh⟩
          simp only [deleteLoop, Store.read_some, hl.cell_head, hfree, Option.bind_eq_bind,
            Option.bind_some, hn, SearchTree.root_nil]
  | node i c lo eq hi vs _ ihe _ =>
      obtain ⟨rfl, rfl, heq⟩ := hE
      cases fuel with
      | zero => omega
      | succ fuel =>
          obtain ⟨h₁, hfree, hh, _⟩ := hl.free
          simp only [cells, List.nil_append, List.append_nil, List.cons_append] at hh
          simp only [cells, List.nil_append, List.append_nil, List.length_cons] at hfuel
          obtain ⟨h', hrun, hh'⟩ := ihe heq hh rfl fuel (by omega)
          refine ⟨h', ?_, hh'⟩
          simp only [deleteLoop, Store.read_some, hl.cell_head, hfree, Option.bind_eq_bind,
            Option.bind_some, hn, SearchTree.root_node, hrun]

/-- The end of `erase` when there is no branch: the whole tree goes. -/
lemma prune_chain {t : TernaryTree Value} {T : Shape Value} (h : Represents t T)
    (hT : T.EqOnly) (hne : T ≠ .nil) (lbp : Ptr) :
    ∃ t', t.prune none lbp = some t' ∧ Represents t' .nil := by
  cases T with
  | nil => exact absurd rfl hne
  | node i c lo eq hi vs =>
      obtain ⟨rfl, rfl, heq⟩ := hT
      have hlen := h.length_lt_moves
      have hholds := h.holds
      simp only [cells, List.nil_append, List.append_nil, List.length_cons] at hlen hholds
      obtain ⟨h', hrun, hh⟩ := deleteLoop_spec eq heq (hholds.perm
        (List.Perm.cons _ (List.Perm.of_eq (List.append_nil _).symm))) rfl t.moves (by omega)
      refine ⟨⟨h', none⟩, ?_, ⟨hh, rfl⟩⟩
      have hroot : t.root = some i := h.root_eq
      simp only [prune, detach, hroot, Option.bind_eq_bind, Option.bind_some, moves] at hrun ⊢
      simp only [hrun, Option.bind_some]

/-- `detach` at the last branch: its upper subtree over its lower one takes its place. -/
lemma detach_branch {t : TernaryTree Value} {fs : Context Value} {b : ℕ} {c : CChar}
    {lo eq hi : Shape Value} {vs : Finset Value}
    (h : Represents t (plug fs (.node b c lo eq hi vs)))
    (hsame : lo = .nil → hi = .nil → ∃ f gs, fs = f :: gs ∧ f.SameLevel) :
    ∃ t' n, t.detach (some b) (parent fs none) = some (t', some b) ∧ n.eq = eq.root ∧
      Focus t' fs (hi.hang lo).root (cells (hi.hang lo) ++ ((b, n) :: cells eq)) ∧
      t'.moves = t.moves := by
  set n : Node Value := ⟨c, lo.root, eq.root, hi.root, vs⟩ with hn
  have hfocus : Focus t fs (some b) ((b, n) :: (cells lo ++ cells eq ++ cells hi)) := h.focus
  have hread : t.heap.read (some b) = some n := hfocus.holds.read_eq (by simp)
  by_cases hleaf : lo = .nil ∧ hi = .nil
  · obtain ⟨rfl, rfl⟩ := hleaf
    obtain ⟨f, gs, rfl, hf⟩ := hsame rfl rfl
    obtain ⟨t', hrun, hfocus', hm⟩ := hfocus.unlinkLeaf hf
    refine ⟨t', n, ?_, rfl, by simpa [cells, SearchTree.hang] using hfocus', hm⟩
    simp only [detach, hread, parent, hn, SearchTree.root_nil, and_self, if_true, hrun,
      Option.bind_eq_bind, Option.bind_some]
  · have hroots : ¬ (n.lo = none ∧ n.hi = none) := by simpa [hn] using hleaf
    have hperm : ((b, n) :: (cells lo ++ cells eq ++ cells hi)).Perm
        (cells hi ++ (cells lo ++ ((b, n) :: cells eq))) := by
      refine List.Perm.trans ?_ List.perm_append_comm
      refine List.Perm.trans ?_ (List.Perm.append_right _ List.perm_middle.symm)
      exact List.Perm.refl _
    cases hhi : hi with
    | nil =>
        subst hhi
        obtain ⟨t', hrun, hfocus', hm⟩ := hfocus.relink lo.root
        refine ⟨t', n, ?_, rfl, ?_, hm⟩
        · simp only [detach, hread, if_neg hroots, Option.bind_eq_bind, Option.bind_some]
          simp [hn, hrun, TernaryTree.hangUnder]
        · rw [SearchTree.hang]
          simpa [cells] using hfocus'.perm hperm
    | node j d lo' eq' hi' ws =>
        rw [← hhi]
        obtain ⟨t₁, hrun₁, hfocus₁, hm₁⟩ := hfocus.relink hi.root
        obtain ⟨t', hrun', hfocus', hm'⟩ := (hfocus₁.perm hperm).hangUnder (by simp [hhi])
        refine ⟨t', n, ?_, rfl, hfocus', hm'.trans hm₁⟩
        have hlbr : (if n.hi.isSome then n.hi else n.lo) = hi.root := by simp [hn, hhi]
        have hlbdc : (if n.lo.isSome && n.hi.isSome then n.lo else none) = lo.root := by
          cases lo <;> simp [hn, hhi]
        simp only [detach, hread, if_neg hroots, hlbr, hlbdc, hrun₁, hrun', Option.bind_eq_bind,
          Option.bind_some]

/-- The end of `erase` at the last branch, which is deleted with the chain below it. -/
lemma prune_branch {t : TernaryTree Value} {fs : Context Value} {b : ℕ} {c : CChar}
    {lo eq hi : Shape Value} {vs : Finset Value}
    (h : Represents t (plug fs (.node b c lo eq hi vs))) (heq : eq.EqOnly)
    (hsame : lo = .nil → hi = .nil → ∃ f gs, fs = f :: gs ∧ f.SameLevel) :
    ∃ t', t.prune (some b) (parent fs none) = some t' ∧ Represents t' (plug fs (hi.hang lo)) := by
  obtain ⟨t₁, n, hdetach, hneq, hfocus, hm⟩ := detach_branch h hsame
  have hlen : (cells eq).length < t₁.moves := by
    have hle := hfocus.holds.length_le_next
    simp only [List.length_append, List.length_cons] at hle
    exact Nat.lt_succ_of_le (by omega)
  have hperm : (holeCells fs (hi.hang lo).root ++ (cells (hi.hang lo) ++ ((b, n) :: cells eq))).Perm
      ((b, n) :: (cells eq ++ (holeCells fs (hi.hang lo).root ++ cells (hi.hang lo)))) := by
    rw [← List.append_assoc]
    exact List.perm_middle.trans (List.Perm.cons _ List.perm_append_comm)
  obtain ⟨h', hrun, hh⟩ := deleteLoop_spec eq heq (hfocus.holds.perm hperm) hneq t₁.moves hlen
  refine ⟨⟨h', t₁.root⟩, ?_, Focus.represents ⟨hh, hfocus.root_eq⟩⟩
  simp only [prune, hdetach, hrun, Option.bind_eq_bind, Option.bind_some]

/-! ### `erase` -/

/-- The values that `erase(key, valuep)` leaves of a set. -/
def leftover [DecidableEq Value] (valuep : Option Value) (vs : Finset Value) : Finset Value :=
  match valuep with
  | some value => vs.erase value
  | none => ∅

/-- The tree after `erase(key, valuep)`: the set at the key loses the value, or all
values, and the key is removed when nothing is left. -/
def eraseShape [DecidableEq Value] (T : Shape Value) (key : List CChar) (valuep : Option Value) :
    Shape Value :=
  match T.find key with
  | none => T
  | some vs =>
      if leftover valuep vs = ∅ then T.remove key else T.modify (leftover valuep) key

/-- The end of `erase` on a tree in which the set at the key has just been changed. -/
lemma Represents.prune {t : TernaryTree Value} {T : Shape Value} {key : List CChar}
    {vs : Finset Value} {f : Finset Value → Finset Value} (h : Represents t (T.modify f key))
    (hfind : T.find key = some vs) {w : Trail}
    (hw : (T.EqOnly ∧ w = ⟨T.lastNode key, none, none⟩) ∨
      ∃ fs b c lo hi, LastBranch T key fs b c lo hi ∧
        w = ⟨T.lastNode key, some b, parent fs none⟩) :
    ∃ t', t.prune w.lb w.lbp = some t' ∧ Represents t' (T.remove key) := by
  rcases hw with ⟨hchain, rfl⟩ | ⟨fs, b, c, lo, hi, hlast, rfl⟩
  · rw [hchain.remove_eq_nil hfind]
    refine prune_chain h (hchain.modify f key) ?_ none
    rw [Ne, SearchTree.modify_eq_nil_iff]
    rintro rfl
    cases hfind
  · obtain ⟨eq, ws, hplug, heq⟩ := hlast.modify f
    rw [hplug] at h
    rw [hlast.remove]
    exact prune_branch h heq hlast.sameLevel

/-- `erase` computes `eraseShape`, and does not fault. -/
theorem Represents.eraseAt [DecidableEq Value] {t : TernaryTree Value} {T : Shape Value}
    (h : Represents t T) (htidy : T.Tidy) (key : Key) (valuep : Option Value) :
    ∃ t', t.eraseAt key valuep = some t' ∧ Represents t' (eraseShape T key.val valuep) := by
  cases hfind : T.find key.val with
  | none =>
      obtain ⟨w, hrun, hp⟩ := eraseLoop_absent h.holds T t.moves none none none key.val
        (fun _ hx => hx) h.length_lt_moves hfind
      refine ⟨t, ?_, by simpa only [eraseShape, hfind] using h⟩
      rw [TernaryTree.eraseAt, h.root_eq, hrun]
      simp only [Option.bind_eq_bind, Option.bind_some, hp]
  | some vs =>
      have hspec := eraseLoop_spec h.holds T t.moves none none none key.val
        (fun _ hx => hx) h.length_lt_moves htidy hfind
      obtain ⟨w, hrun, hw⟩ : ∃ w, eraseLoop t.heap t.moves T.root none none none key.val = some w ∧
          ((T.EqOnly ∧ w = ⟨T.lastNode key.val, none, none⟩) ∨ ∃ fs b c lo hi,
            LastBranch T key.val fs b c lo hi ∧
              w = ⟨T.lastNode key.val, some b, parent fs none⟩) := by
        rcases hspec with ⟨hchain, hrun⟩ | ⟨fs, b, c, lo, hi, hlast, hrun⟩
        · exact ⟨_, hrun, Or.inl ⟨hchain, rfl⟩⟩
        · exact ⟨_, hrun, Or.inr ⟨fs, b, c, lo, hi, hlast, rfl⟩⟩
      obtain ⟨i, hlast⟩ : ∃ i, T.lastNode key.val = some i := by
        rw [← Option.ne_none_iff_exists', Ne, lastNode_eq_none_iff, hfind]
        simp
      have hwp : w.p = some i := by
        rcases hw with ⟨_, rfl⟩ | ⟨fs, b, c, lo, hi, _, rfl⟩ <;> exact hlast
      obtain ⟨t₁, n, hu, hrep, hread, hvals⟩ := h.update_at hfind hlast (leftover valuep)
      simp only [TernaryTree.eraseAt, h.root_eq, hrun, Option.bind_eq_bind, Option.bind_some, hwp,
        eraseShape, hfind]
      cases valuep with
      | none =>
          obtain ⟨t', hprune, hrep'⟩ := hrep.prune hfind hw
          simp only [leftover] at hu
          refine ⟨t', ?_, by simpa [leftover] using hrep'⟩
          simp only [hu, Option.bind_some, hprune]
      | some value =>
          have hcard : n.values.card ≠ 0 ↔ leftover (some value) vs ≠ ∅ := by
            rw [hvals, Ne, Finset.card_eq_zero]
          have hu' : (t.update (some i) fun n => { n with values := n.values.erase value })
              = some t₁ := hu
          simp only [hu', hread, Option.bind_some]
          by_cases hempty : leftover (some value) vs = ∅
          · obtain ⟨t', hprune, hrep'⟩ := hrep.prune hfind hw
            refine ⟨t', ?_, by rwa [if_pos hempty]⟩
            rw [if_neg (by rw [hcard, hempty]; simp), hprune]
          · exact ⟨t₁, if_pos (hcard.mpr hempty), by rwa [if_neg hempty]⟩

end TernaryTree

end Napd
