import Napd.Ternary.Multimap

/-!
The representation invariant of `TernaryTree`, in terms of nodes and links.

`WellFormed` says it of the store and the root pointer alone: each level is a strict
search tree, the nodes of characters and of terminators hold what they should, no node
is shared, and the nodes that are allocated are exactly those that can be reached.
`Represents.wellFormed` derives it from the search tree that the store represents.
-/

namespace Napd

namespace TernaryTree

open Linked TernarySearch

variable {Value : Type}

/-- The nodes that can be reached from the root. -/
inductive Reach (t : TernaryTree Value) : ℕ → Prop where
  | root {a : ℕ} : t.root = some a → Reach t a
  | link {a b : ℕ} {n : Node Value} : Reach t a → t.heap.cell a = some n →
      (n.lo = some b ∨ n.eq = some b ∨ n.hi = some b) → Reach t b

/-- The nodes of a level: those that can be reached from `p` through `lo` and `hi`. -/
inductive OnLevel (h : Store (Node Value)) : Ptr → ℕ → Prop where
  | here (a : ℕ) : OnLevel h (some a) a
  | lo {a b : ℕ} {n : Node Value} : h.cell a = some n → OnLevel h n.lo b → OnLevel h (some a) b
  | hi {a b : ℕ} {n : Node Value} : h.cell a = some n → OnLevel h n.hi b → OnLevel h (some a) b

/-- The nodes on the path of a key: those that `find` visits. -/
inductive OnPath (h : Store (Node Value)) : Ptr → List CChar → ℕ → Prop where
  | here (a : ℕ) (s : List CChar) : OnPath h (some a) s a
  | lo {a b : ℕ} {n : Node Value} {s : List CChar} : h.cell a = some n → peek s < n.c →
      OnPath h n.lo s b → OnPath h (some a) s b
  | eq {a b : ℕ} {n : Node Value} {s : List CChar} : h.cell a = some n → peek s = n.c →
      peek s ≠ 0 → OnPath h n.eq s.tail b → OnPath h (some a) s b
  | hi {a b : ℕ} {n : Node Value} {s : List CChar} : h.cell a = some n → n.c < peek s →
      OnPath h n.hi s b → OnPath h (some a) s b

/-- **The representation invariant.** -/
structure WellFormed (t : TernaryTree Value) : Prop where
  /-- What hangs on `lo` comes before a node of its level. -/
  lo_lt : ∀ a n b m, t.heap.cell a = some n → OnLevel t.heap n.lo b → t.heap.cell b = some m →
    m.c < n.c
  /-- What hangs on `hi` comes after it. -/
  lt_hi : ∀ a n b m, t.heap.cell a = some n → OnLevel t.heap n.hi b → t.heap.cell b = some m →
    n.c < m.c
  /-- A terminator ends a key: nothing below it, and some value. -/
  ends : ∀ a n, t.heap.cell a = some n → n.c = 0 → n.eq = none ∧ n.values ≠ ∅
  /-- Any other character goes on, and has no value. -/
  goes_on : ∀ a n, t.heap.cell a = some n → n.c ≠ 0 → n.eq ≠ none ∧ n.values = ∅
  /-- Every node lies on the path of a stored key. -/
  on_path : ∀ a, t.heap.Live a → ∃ (key : Key) (vs : Finset Value),
    t.find key = some (some vs) ∧ OnPath t.heap t.root key.val a
  /-- The root is null exactly when no key is stored. -/
  root_eq_none : t.root = none ↔ ∀ key : Key, t.find key = some none
  /-- No node is shared by two links. -/
  unshared : ∀ (l l' : Link) (a : ℕ), l.get t = some (some a) → l'.get t = some (some a) → l = l'
  /-- The allocated nodes are the reachable ones: none is leaked, and no link dangles. -/
  live_iff : ∀ a, t.heap.Live a ↔ Reach t a

/-! ### The nodes of a represented tree -/

lemma map_fst_cells (T : Shape Value) : (cells T).map Prod.fst = T.labels := by
  induction T with
  | nil => rfl
  | node i c lo eq hi vs ihl ihe ihh => simp [cells, SearchTree.labels, ihl, ihe, ihh]

/-- A node of the store is a node of the tree, with its subtrees. -/
lemma exists_subtree {T : Shape Value} {a : ℕ} {n : Node Value} (h : (a, n) ∈ cells T) :
    ∃ c lo eq hi vs, n = ⟨c, lo.root, eq.root, hi.root, vs⟩ ∧
      (∀ x ∈ cells (SearchTree.node a c lo eq hi vs), x ∈ cells T) ∧
      (T.Ordered → (SearchTree.node a c lo eq hi vs).Ordered) ∧
      (T.Tidy → (SearchTree.node a c lo eq hi vs).Tidy) := by
  induction T with
  | nil => simp [cells] at h
  | node i d lo eq hi vs ihl ihe ihh =>
      have hmem : ∀ x, x ∈ cells lo ∨ x ∈ cells eq ∨ x ∈ cells hi →
          x ∈ cells (SearchTree.node i d lo eq hi vs) := by
        intro x hx
        simp only [cells, List.mem_cons, List.mem_append]
        exact Or.inr (or_assoc.mpr hx)
      simp only [cells, List.mem_cons, List.mem_append, or_assoc] at h
      rcases h with h | h | h | h
      · obtain ⟨rfl, rfl⟩ := Prod.mk.inj h
        exact ⟨d, lo, eq, hi, vs, rfl, fun x hx => hx, id, id⟩
      · obtain ⟨c, lo', eq', hi', ws, hn, hsub, ho, ht⟩ := ihl h
        exact ⟨c, lo', eq', hi', ws, hn, fun x hx => hmem x (Or.inl (hsub x hx)),
          fun o => ho o.1, fun t => ht t.1⟩
      · obtain ⟨c, lo', eq', hi', ws, hn, hsub, ho, ht⟩ := ihe h
        exact ⟨c, lo', eq', hi', ws, hn, fun x hx => hmem x (Or.inr (Or.inl (hsub x hx))),
          fun o => ho o.2.1, fun t => ht t.2.1⟩
      · obtain ⟨c, lo', eq', hi', ws, hn, hsub, ho, ht⟩ := ihh h
        exact ⟨c, lo', eq', hi', ws, hn, fun x hx => hmem x (Or.inr (Or.inr (hsub x hx))),
          fun o => ho o.2.2.1, fun t => ht t.2.2.1⟩

/-- The nodes of a level have the characters of the tree's level. -/
lemma OnLevel.mem_level {h : Store (Node Value)} {l : List (ℕ × Node Value)} (hl : Holds h l)
    (T : Shape Value) (hT : ∀ x ∈ cells T, x ∈ l) {b : ℕ} {m : Node Value}
    (hb : OnLevel h T.root b) (hm : h.cell b = some m) : m.c ∈ T.level := by
  induction T with
  | nil => cases hb
  | node i c lo eq hi vs ihl _ ihh =>
      obtain ⟨hself, hTlo, hTeq, hThi⟩ := cells_node_subset hT
      have hread : h.cell i = _ := hl.read_eq hself
      simp only [SearchTree.level, List.mem_cons, List.mem_append]
      rw [SearchTree.root_node] at hb
      cases hb with
      | here =>
          rw [hread] at hm
          exact Or.inl (Option.some.inj hm ▸ rfl)
      | lo hn hb =>
          obtain rfl := Option.some.inj (hread.symm.trans hn)
          exact Or.inr (Or.inl (ihl hTlo hb))
      | hi hn hb =>
          obtain rfl := Option.some.inj (hread.symm.trans hn)
          exact Or.inr (Or.inr (ihh hThi hb))

/-- What a lookup passes in the tree, `find` visits in the store. -/
lemma onPath_of_mem_path {h : Store (Node Value)} {l : List (ℕ × Node Value)} (hl : Holds h l)
    (T : Shape Value) (hT : ∀ x ∈ cells T, x ∈ l) (s : List CChar) {b : ℕ} (hb : b ∈ T.path s) :
    OnPath h T.root s b := by
  induction T generalizing s with
  | nil => simp [SearchTree.path] at hb
  | node i c lo eq hi vs ihl ihe ihh =>
      obtain ⟨hself, hTlo, hTeq, hThi⟩ := cells_node_subset hT
      have hread : h.cell i = _ := hl.read_eq hself
      rw [SearchTree.root_node]
      cases hturn : SearchTree.turn c s <;> simp only [SearchTree.path, hturn, List.mem_cons] at hb
      case lo =>
        rcases hb with rfl | hb
        · exact .here b s
        · exact .lo hread (SearchTree.turn_lo_iff.mp hturn) (ihl hTlo s hb)
      case stop =>
        obtain rfl : b = i := by simpa using hb
        exact .here b s
      case eq =>
        rcases hb with rfl | hb
        · exact .here b s
        · obtain ⟨hc, h0⟩ := SearchTree.turn_eq_iff.mp hturn
          exact .eq hread hc (by rwa [hc]) (ihe hTeq s.tail hb)
      case hi =>
        rcases hb with rfl | hb
        · exact .here b s
        · exact .hi hread (SearchTree.turn_hi_iff.mp hturn) (ihh hThi s hb)

/-! ### The links of a represented tree -/

/-- The links that are not null, each with the node it holds, when `l` holds the root. -/
def linksOf : Shape Value → Link → List (Link × ℕ)
  | .nil, _ => []
  | .node i _ lo eq hi _, l =>
      (l, i) :: (linksOf lo (.lo i) ++ linksOf eq (.eq i) ++ linksOf hi (.hi i))

lemma map_snd_linksOf (T : Shape Value) (l : Link) : (linksOf T l).map Prod.snd = T.labels := by
  induction T generalizing l with
  | nil => rfl
  | node i c lo eq hi vs ihl ihe ihh => simp [linksOf, SearchTree.labels, ihl, ihe, ihh]

lemma mem_linksOf_root {T : Shape Value} {a : ℕ} (l : Link) (h : T.root = some a) :
    (l, a) ∈ linksOf T l := by
  cases T with
  | nil => cases h
  | node i c lo eq hi vs => rw [← Option.some.inj h]; exact List.mem_cons_self

/-- The links of every node of the store are among them. -/
lemma mem_linksOf {T : Shape Value} {a b : ℕ} {n : Node Value} (l : Link)
    (h : (a, n) ∈ cells T) :
    (n.lo = some b → (.lo a, b) ∈ linksOf T l) ∧ (n.eq = some b → (.eq a, b) ∈ linksOf T l) ∧
      (n.hi = some b → (.hi a, b) ∈ linksOf T l) := by
  induction T generalizing l with
  | nil => simp [cells] at h
  | node i c lo eq hi vs ihl ihe ihh =>
      simp only [cells, List.mem_cons, List.mem_append, or_assoc] at h
      simp only [linksOf, List.mem_cons, List.mem_append]
      rcases h with h | h | h | h
      · obtain ⟨rfl, rfl⟩ := Prod.mk.inj h
        refine ⟨fun hr => ?_, fun hr => ?_, fun hr => ?_⟩
        · exact Or.inr (Or.inl (Or.inl (mem_linksOf_root _ hr)))
        · exact Or.inr (Or.inl (Or.inr (mem_linksOf_root _ hr)))
        · exact Or.inr (Or.inr (mem_linksOf_root _ hr))
      · have ih := ihl (.lo i) h
        exact ⟨fun hr => by simp [ih.1 hr], fun hr => by simp [ih.2.1 hr],
          fun hr => by simp [ih.2.2 hr]⟩
      · have ih := ihe (.eq i) h
        exact ⟨fun hr => by simp [ih.1 hr], fun hr => by simp [ih.2.1 hr],
          fun hr => by simp [ih.2.2 hr]⟩
      · have ih := ihh (.hi i) h
        exact ⟨fun hr => by simp [ih.1 hr], fun hr => by simp [ih.2.1 hr],
          fun hr => by simp [ih.2.2 hr]⟩

/-- A link of the store that holds a node is a link of the tree. -/
lemma Represents.mem_linksOf {t : TernaryTree Value} {T : Shape Value} (h : Represents t T)
    {l : Link} {a : ℕ} (hl : l.get t = some (some a)) : (l, a) ∈ linksOf T .root := by
  cases l with
  | root => exact mem_linksOf_root _ (h.root_eq ▸ Option.some.inj hl)
  | lo i =>
      obtain ⟨n, hn, hlo⟩ := Option.map_eq_some_iff.mp hl
      exact (TernaryTree.mem_linksOf _ ((h.holds.cell_iff i n).mp hn)).1 hlo
  | eq i =>
      obtain ⟨n, hn, heq⟩ := Option.map_eq_some_iff.mp hl
      exact (TernaryTree.mem_linksOf _ ((h.holds.cell_iff i n).mp hn)).2.1 heq
  | hi i =>
      obtain ⟨n, hn, hhi⟩ := Option.map_eq_some_iff.mp hl
      exact (TernaryTree.mem_linksOf _ ((h.holds.cell_iff i n).mp hn)).2.2 hhi

lemma Represents.live_iff_mem {t : TernaryTree Value} {T : Shape Value} (h : Represents t T)
    {a : ℕ} : t.heap.Live a ↔ a ∈ T.labels := by
  rw [h.holds.live_iff, map_fst_cells]

lemma Represents.mem_of_link {t : TernaryTree Value} {T : Shape Value} (h : Represents t T)
    {l : Link} {a : ℕ} (hl : l.get t = some (some a)) : a ∈ T.labels := by
  rw [← map_snd_linksOf T .root]
  exact List.mem_map.mpr ⟨(l, a), h.mem_linksOf hl, rfl⟩

/-- Every node below a reachable root is reachable. -/
lemma reach_of_mem {t : TernaryTree Value} {l : List (ℕ × Node Value)} (hl : Holds t.heap l)
    (T : Shape Value) (hT : ∀ x ∈ cells T, x ∈ l) (hroot : ∀ a, T.root = some a → Reach t a)
    {b : ℕ} (hb : b ∈ T.labels) : Reach t b := by
  induction T with
  | nil => simp [SearchTree.labels] at hb
  | node i c lo eq hi vs ihl ihe ihh =>
      obtain ⟨hself, hTlo, hTeq, hThi⟩ := cells_node_subset hT
      have hread : t.heap.cell i = _ := hl.read_eq hself
      have hi' : Reach t i := hroot i rfl
      simp only [SearchTree.labels, List.mem_cons, List.mem_append, or_assoc] at hb
      rcases hb with rfl | hb | hb | hb
      · exact hi'
      · exact ihl hTlo (fun a ha => .link hi' hread (Or.inl ha)) hb
      · exact ihe hTeq
          (fun a ha => .link hi' hread (Or.inr (Or.inl ha))) hb
      · exact ihh hThi
          (fun a ha => .link hi' hread (Or.inr (Or.inr ha))) hb

lemma Represents.live_iff_reach {t : TernaryTree Value} {T : Shape Value} (h : Represents t T)
    (a : ℕ) : t.heap.Live a ↔ Reach t a := by
  rw [h.live_iff_mem]
  constructor
  · exact reach_of_mem h.holds T (fun _ hx => hx) fun a ha => .root (h.root_eq.trans ha)
  · intro hreach
    cases hreach with
    | root ha => exact h.mem_of_link (show Link.root.get t = _ from congrArg some ha)
    | link _ hn hb =>
        rcases hb with hb | hb | hb
        · exact h.mem_of_link (show (Link.lo _).get t = _ from
            Option.map_eq_some_iff.mpr ⟨_, hn, hb⟩)
        · exact h.mem_of_link (show (Link.eq _).get t = _ from
            Option.map_eq_some_iff.mpr ⟨_, hn, hb⟩)
        · exact h.mem_of_link (show (Link.hi _).get t = _ from
            Option.map_eq_some_iff.mpr ⟨_, hn, hb⟩)

/-! ### The invariant -/

/-- A store that represents an ordered and tidy search tree is well formed. -/
lemma Represents.wellFormed {t : TernaryTree Value} {T : Shape Value} (h : Represents t T)
    (ho : T.Ordered) (ht : T.Tidy) : WellFormed t := by
  have hsub : ∀ {a n}, t.heap.cell a = some n → (a, n) ∈ cells T := fun hn =>
    (h.holds.cell_iff _ _).mp hn
  have hthrough : ∀ a ∈ T.labels, ∃ (key : Key) (vs : Finset Value),
      t.find key = some (some vs) ∧ OnPath t.heap t.root key.val a := by
    intro a ha
    obtain ⟨k, vs, hk, hfind, hpath⟩ := SearchTree.exists_word_through ht ho ha
    refine ⟨⟨k, hk⟩, vs, by rw [h.find_eq, hfind], ?_⟩
    rw [h.root_eq]
    exact onPath_of_mem_path h.holds T (fun _ hx => hx) k hpath
  refine ⟨?_, ?_, ?_, ?_, ?_, ?_, ?_, h.live_iff_reach⟩
  · intro a n b m hn hb hm
    obtain ⟨c, lo, eq, hi, vs, rfl, hcells, hord, _⟩ := exists_subtree (hsub hn)
    exact (hord ho).2.2.2.1 _ (OnLevel.mem_level h.holds lo
      (fun x hx => hcells x (by simp [cells, hx])) hb hm)
  · intro a n b m hn hb hm
    obtain ⟨c, lo, eq, hi, vs, rfl, hcells, hord, _⟩ := exists_subtree (hsub hn)
    exact (hord ho).2.2.2.2 _ (OnLevel.mem_level h.holds hi
      (fun x hx => hcells x (by simp [cells, hx])) hb hm)
  · intro a n hn hc
    obtain ⟨c, lo, eq, hi, vs, rfl, _, _, htidy⟩ := exists_subtree (hsub hn)
    obtain ⟨heq, hvs⟩ := (htidy ht).2.2.2.1 hc
    exact ⟨(SearchTree.root_eq_none_iff eq).mpr heq, hvs⟩
  · intro a n hn hc
    obtain ⟨c, lo, eq, hi, vs, rfl, _, _, htidy⟩ := exists_subtree (hsub hn)
    obtain ⟨heq, hvs⟩ := (htidy ht).2.2.2.2 hc
    exact ⟨(SearchTree.root_eq_none_iff eq).not.mpr heq, hvs⟩
  · intro a ha
    exact hthrough a (h.live_iff_mem.mp ha)
  · rw [h.root_eq]
    constructor
    · intro hroot key
      rw [h.find_eq, (SearchTree.root_eq_none_iff T).mp hroot]
      rfl
    · intro hnone
      cases T with
      | nil => rfl
      | node i c lo eq hi vs =>
          obtain ⟨key, ws, hfind, _⟩ := hthrough i (by simp [SearchTree.labels])
          rw [hnone key] at hfind
          cases hfind
  · intro l l' a hl hl'
    have hnd : ((linksOf T .root).map Prod.snd).Nodup := by
      rw [map_snd_linksOf, ← map_fst_cells]
      exact h.holds.nodup
    have hinj := List.inj_on_of_nodup_map hnd (h.mem_linksOf hl) (h.mem_linksOf hl') rfl
    exact congrArg Prod.fst hinj

/-- **Every reachable tree is well formed**, and a call on it deletes exactly the nodes
that stop being reachable. -/
theorem run_wellFormed [DecidableEq Value] [OfNull Value] (ops : List (Op Value)) :
    ∃ t, (empty : TernaryTree Value).run ops = some t ∧ WellFormed t ∧
      ∀ op, ∃ t', t.step op = some t' ∧
        ∀ a, (t.heap.Live a ∧ ¬ t'.heap.Live a) ↔ (Reach t a ∧ ¬ Reach t' a) := by
  obtain ⟨t, hrun, T, h⟩ := run_implements implements_empty ops
  refine ⟨t, hrun, h.represents.wellFormed h.ordered h.tidy, fun op => ?_⟩
  obtain ⟨t', hstep, T', h'⟩ := step_implements ⟨T, h⟩ op
  refine ⟨t', hstep, fun a => ?_⟩
  rw [h.represents.live_iff_reach, h'.represents.live_iff_reach]

end TernaryTree

end Napd
