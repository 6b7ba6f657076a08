import Napd.Ternary.Cells

/-!
`find` and `insert` on a represented tree compute the tree operations.
-/

namespace Napd

namespace TernaryTree

open Linked TernarySearch

variable {Value : Type}

/-- The loop of `find` on the subtree `T` of a store. -/
lemma findLoop_eq {h : Store (Node Value)} {l : List (ℕ × Node Value)} (hl : Holds h l)
    (T : Shape Value) (fuel : ℕ) (s : List CChar) (hT : ∀ x ∈ cells T, x ∈ l)
    (hfuel : (cells T).length < fuel) : findLoop h fuel T.root s = some (T.find s) := by
  induction T generalizing fuel s with
  | nil =>
      cases fuel with
      | zero => omega
      | succ fuel => rfl
  | node i c lo eq hi vs ihl ihe ihh =>
      cases fuel with
      | zero => omega
      | succ fuel =>
          obtain ⟨hself, hTlo, hTeq, hThi⟩ := cells_node_subset hT
          have hread := hl.read_eq hself
          simp only [cells, List.length_cons, List.length_append] at hfuel
          simp only [SearchTree.root_node, findLoop, hread, Option.bind_eq_bind, Option.bind_some,
            SearchTree.find]
          cases hturn : SearchTree.turn c s with
          | lo =>
              rw [if_pos (SearchTree.turn_lo_iff.mp hturn)]
              exact ihl fuel s hTlo (by omega)
          | stop =>
              obtain ⟨h0, rfl⟩ := SearchTree.turn_stop_iff.mp hturn
              simp [h0]
          | eq =>
              obtain ⟨hc, h0⟩ := SearchTree.turn_eq_iff.mp hturn
              rw [if_neg (by rw [hc]; exact lt_irrefl c), if_pos hc, if_neg (by rwa [hc])]
              exact ihe fuel s.tail hTeq (by omega)
          | hi =>
              have hlt := SearchTree.turn_hi_iff.mp hturn
              rw [if_neg hlt.asymm, if_neg hlt.ne']
              exact ihh fuel s hThi (by omega)

/-- `find` returns the set of the tree, and does not fault. -/
theorem Represents.find_eq {t : TernaryTree Value} {T : Shape Value} (h : Represents t T)
    (s : Key) : t.find s = some (T.find s.val) := by
  rw [find, h.root_eq]
  exact findLoop_eq h.holds T _ _ (fun _ hx => hx) h.length_lt_moves

/-- The first loop of `insert` on the subtree `T` at the link `pp`: it ends at the last
node of the key, or at the null link where the key goes in. -/
lemma insertLoop_spec {t : TernaryTree Value} {l : List (ℕ × Node Value)}
    (hl : Holds t.heap l) (T : Shape Value) (fuel : ℕ) (pp : Link) (s : List CChar)
    (hT : ∀ x ∈ cells T, x ∈ l) (hfuel : (cells T).length < fuel)
    (hpp : pp.get t = some T.root) :
    (∃ i, T.lastNode s = some i ∧ t.insertLoop fuel pp s = some (.inl i)) ∨
      ∃ fs s', InsertionPoint T s fs s' ∧
        t.insertLoop fuel pp s = some (.inr (holeLink fs pp, s')) := by
  induction T generalizing fuel pp s with
  | nil =>
      cases fuel with
      | zero => omega
      | succ fuel =>
          refine Or.inr ⟨[], s, InsertionPoint.nil, ?_⟩
          simp only [insertLoop, hpp, SearchTree.root_nil, Option.bind_eq_bind, Option.bind_some]
          rfl
  | node i c lo eq hi vs ihl ihe ihh =>
      cases fuel with
      | zero => omega
      | succ fuel =>
          obtain ⟨hself, hTlo, hTeq, hThi⟩ := cells_node_subset hT
          have hread := hl.read_eq hself
          simp only [cells, List.length_cons, List.length_append] at hfuel
          simp only [insertLoop, hpp, SearchTree.root_node, hread, Option.bind_eq_bind,
            Option.bind_some, toInt_sub_eq_zero_iff, toInt_sub_neg_iff, SearchTree.lastNode]
          cases hturn : SearchTree.turn c s with
          | lo =>
              have hlt := SearchTree.turn_lo_iff.mp hturn
              rw [if_neg hlt.ne, if_pos hlt]
              have hget : (Link.lo i).get t = some lo.root := by simp only [Link.get, hread]; rfl
              rcases ihl fuel (.lo i) s hTlo (by omega) hget with
                hfound | ⟨fs, s', hpoint, hrun⟩
              · exact Or.inl hfound
              · exact Or.inr ⟨_, s', hpoint.inLo hturn, by rw [hrun, holeLink_concat]; rfl⟩
          | stop =>
              obtain ⟨h0, rfl⟩ := SearchTree.turn_stop_iff.mp hturn
              exact Or.inl ⟨i, rfl, by simp [h0]⟩
          | eq =>
              obtain ⟨hc, h0⟩ := SearchTree.turn_eq_iff.mp hturn
              rw [if_pos hc, if_neg (by rwa [hc])]
              have hget : (Link.eq i).get t = some eq.root := by simp only [Link.get, hread]; rfl
              rcases ihe fuel (.eq i) s.tail hTeq (by omega) hget with
                hfound | ⟨fs, s', hpoint, hrun⟩
              · exact Or.inl hfound
              · exact Or.inr ⟨_, s', hpoint.inEq hturn, by rw [hrun, holeLink_concat]; rfl⟩
          | hi =>
              have hlt := SearchTree.turn_hi_iff.mp hturn
              rw [if_neg hlt.ne', if_neg hlt.asymm]
              have hget : (Link.hi i).get t = some hi.root := by simp only [Link.get, hread]; rfl
              rcases ihh fuel (.hi i) s hThi (by omega) hget with
                hfound | ⟨fs, s', hpoint, hrun⟩
              · exact Or.inl hfound
              · exact Or.inr ⟨_, s', hpoint.inHi hturn, by rw [hrun, holeLink_concat]; rfl⟩

/-- One turn of the second loop of `insert`. -/
lemma appendNode_spec {t : TernaryTree Value} {fs : Context Value}
    (h : Represents t (plug fs .nil)) (c : CChar) :
    ∃ t', t.appendNode (holeLink fs .root) c = some (t', t.heap.next) ∧
      Represents t' (plug fs (.node t.heap.next c .nil .nil .nil ∅)) ∧
      t'.heap.next = t.heap.next + 1 := by
  have hfocus : Focus { t with heap := t.heap.alloc Node.new } fs none
      [(t.heap.next, (Node.new : Node Value))] := by
    refine ⟨?_, h.focus.root_eq⟩
    have hheld : Holds (t.heap.alloc Node.new)
        ((t.heap.next, (Node.new : Node Value)) :: holeCells fs none) := by
      simpa [cells] using h.focus.holds.alloc (Node.new : Node Value)
    exact hheld.perm (List.perm_append_singleton _ _).symm
  obtain ⟨t₁, hset, hfocus₁, hm₁⟩ := hfocus.set (some t.heap.next)
  obtain ⟨t₂, hu, hh₂, hroot₂, hm₂⟩ := update_eq (hfocus₁.holds.perm List.perm_middle)
    fun n => { n with c := c }
  refine ⟨t₂, ?_, Focus.represents ⟨hh₂.perm List.perm_middle.symm,
    hroot₂.trans hfocus₁.root_eq⟩, ?_⟩
  · simp only [appendNode, hset, hu, Option.bind_eq_bind, Option.bind_some]
  · have hm : t₂.moves = t.moves + 1 := hm₂.trans hm₁
    exact Nat.succ.inj hm

/-- The second loop of `insert` appends the nodes of the rest of the key. -/
lemma appendLoop_spec {t : TernaryTree Value} {fs : Context Value}
    (h : Represents t (plug fs .nil)) (s : List CChar) :
    ∃ t' p gs, t.appendLoop (holeLink fs .root) s = some (t', p) ∧
      (∀ ws, plug fs (SearchTree.spine ws (fun n => t.heap.next + n) s)
        = plug gs (.node p 0 .nil .nil .nil ws)) ∧
      Represents t' (plug gs (.node p 0 .nil .nil .nil ∅)) := by
  induction s generalizing t fs with
  | nil =>
      obtain ⟨t', hrun, hrep, _⟩ := appendNode_spec h 0
      exact ⟨t', t.heap.next, fs, hrun, fun ws => rfl, hrep⟩
  | cons c s ih =>
      obtain ⟨t₁, hrun, hrep, hnext⟩ := appendNode_spec h c
      have hrep₁ : Represents t₁ (plug (.inEq t.heap.next c .nil .nil ∅ :: fs) .nil) := hrep
      obtain ⟨t', p, gs, hrun', hplug, hrep'⟩ := ih hrep₁
      refine ⟨t', p, gs, ?_, fun ws => ?_, hrep'⟩
      · simp only [appendLoop, hrun, Option.bind_eq_bind, Option.bind_some]
        exact hrun'
      · rw [← hplug ws, hnext]
        simp only [SearchTree.spine, plug_cons, Frame.fill, Nat.add_zero, Nat.add_right_comm _ 1,
          Nat.add_assoc]

/-- `insert` computes the insertion, with fresh nodes, and does not fault. -/
theorem Represents.insert [DecidableEq Value] {t : TernaryTree Value} {T : Shape Value}
    (h : Represents t T) (s : Key) (v : Value) :
    ∃ t', t.insert s v = some t' ∧
      Represents t' (T.insert (fun n => t.heap.next + n) v s.val) := by
  rcases insertLoop_spec h.holds T t.moves .root s.val (fun _ hx => hx) h.length_lt_moves
    (congrArg some h.root_eq) with ⟨i, hlast, hrun⟩ | ⟨fs, s', ⟨hplug, hins⟩, hrun⟩
  · obtain ⟨vs, hfind⟩ : ∃ vs, T.find s.val = some vs := by
      rw [← Option.ne_none_iff_exists', Ne, ← lastNode_eq_none_iff, hlast]
      simp
    obtain ⟨t', _, hu, hrep, _⟩ := h.update_at hfind hlast (Insert.insert v)
    refine ⟨t', ?_, ?_⟩
    · simp only [TernaryTree.insert, hrun, Option.bind_eq_bind, Option.bind_some, hu]
    · rw [SearchTree.insert_of_find _ _ hfind]
      exact hrep
  · rw [hplug] at h
    obtain ⟨t₁, p, gs, happ, hspine, hrep⟩ := appendLoop_spec h s'
    obtain ⟨t', hu, hrep', _⟩ := hrep.update_values (Insert.insert v)
    refine ⟨t', ?_, ?_⟩
    · simp only [TernaryTree.insert, hrun, Option.bind_eq_bind, Option.bind_some, happ, hu]
    · rw [hins, hspine]
      exact hrep'

end TernaryTree

end Napd
