import Mathlib.Tactic
import Mathlib.Data.Finset.Basic

/-!
Ternary search trees with a set of values at every stored word.

A node carries a label, a character, three subtrees and a finite set. The subtrees
`lo` and `hi` belong to the same level, the characters that may stand at one
position of a word; `eq` is the next level. Words are lists without the character
`0`, which ends a word: a word is read through `peek` and `tail`, so the end of
the list is the terminator.

* `find`, `insert`, `modify`, `remove`: the operations. `remove` deletes the word's
  last node and every node left without a subtree, and closes the gap by hanging the
  lower subtree under the leftmost node of the upper one (`hang`).
* `Ordered`, `Tidy`: each level is a strict search tree; exactly the nodes that end a
  word hold values, and no node is a dead end.
* `find_insert`, `find_modify`, `find_remove`: what a lookup sees after an operation.
* `Frame`, `plug`: a tree with a hole, innermost frame first.
-/

namespace TernarySearch

/-- The character a word begins with; at its end, the terminator. -/
def peek {α : Type*} [Zero α] : List α → α
  | [] => 0
  | c :: _ => c

@[simp] lemma peek_nil {α : Type*} [Zero α] : peek ([] : List α) = 0 := rfl

@[simp] lemma peek_cons {α : Type*} [Zero α] (c : α) (s : List α) : peek (c :: s) = c := rfl

/-- Ternary search trees with labels `ι`, characters `α` and sets of values `V`. -/
inductive SearchTree (ι α V : Type*) where
  | nil : SearchTree ι α V
  | node (i : ι) (c : α) (lo eq hi : SearchTree ι α V) (vs : Finset V) : SearchTree ι α V

namespace SearchTree

variable {ι α V : Type*}

/-- The label of the root, if there is one. -/
def root : SearchTree ι α V → Option ι
  | nil => none
  | node i _ _ _ _ _ => some i

/-- The labels of a tree. -/
def labels : SearchTree ι α V → List ι
  | nil => []
  | node i _ lo eq hi _ => i :: (lo.labels ++ eq.labels ++ hi.labels)

/-- The characters of the top level: those reachable through `lo` and `hi`. -/
def level : SearchTree ι α V → List α
  | nil => []
  | node _ c lo _ hi _ => c :: (lo.level ++ hi.level)

/-- Hang the tree `s` under the leftmost node of a level. -/
def hang : SearchTree ι α V → SearchTree ι α V → SearchTree ι α V
  | nil, s => s
  | node i c lo eq hi vs, s => node i c (hang lo s) eq hi vs

/-- A level of one node, and so all the way down: the nodes are linked by `eq` only. -/
def EqOnly : SearchTree ι α V → Prop
  | nil => True
  | node _ _ lo eq hi _ => lo = nil ∧ hi = nil ∧ eq.EqOnly

@[simp] lemma root_nil : (nil : SearchTree ι α V).root = none := rfl

@[simp] lemma root_node (i : ι) (c : α) (lo eq hi : SearchTree ι α V) (vs : Finset V) :
    (node i c lo eq hi vs).root = some i := rfl

@[simp] lemma root_eq_none_iff (t : SearchTree ι α V) : t.root = none ↔ t = nil := by
  cases t <;> simp [root]

@[simp] lemma hang_nil (t : SearchTree ι α V) : t.hang nil = t := by
  induction t with
  | nil => rfl
  | node i c lo eq hi vs ihl _ _ => rw [hang, ihl]

lemma hang_eq_nil_iff (t s : SearchTree ι α V) : t.hang s = nil ↔ t = nil ∧ s = nil := by
  cases t <;> simp [hang]

lemma mem_level_hang (t s : SearchTree ι α V) (d : α) :
    d ∈ (t.hang s).level ↔ d ∈ t.level ∨ d ∈ s.level := by
  induction t with
  | nil => simp [hang, level]
  | node i c lo eq hi vs ihl _ _ =>
      simp only [hang, level, List.mem_cons, List.mem_append, ihl]
      rw [or_right_comm, or_assoc, or_assoc, or_assoc]

/-! ### The operations -/

/-- Where a word leaves a node: into one of the subtrees, or nowhere, because it ends. -/
inductive Turn where
  | lo | stop | eq | hi
  deriving DecidableEq, Repr

section Operations

variable [LinearOrder α] [Zero α]

/-- Where the word `k` leaves a node with character `c`. -/
def turn (c : α) (k : List α) : Turn :=
  if peek k = c then
    if peek k = 0 then .stop else .eq
  else if peek k < c then .lo
  else .hi

/-- The set stored at a word, if the word has a last node. -/
def find : SearchTree ι α V → List α → Option (Finset V)
  | nil, _ => none
  | node _ c lo eq hi vs, k =>
      match turn c k with
      | .lo => lo.find k
      | .stop => some vs
      | .eq => eq.find k.tail
      | .hi => hi.find k

/-- The label of the last node of a word. -/
def lastNode : SearchTree ι α V → List α → Option ι
  | nil, _ => none
  | node i c lo eq hi _, k =>
      match turn c k with
      | .lo => lo.lastNode k
      | .stop => some i
      | .eq => eq.lastNode k.tail
      | .hi => hi.lastNode k

/-- The labels a lookup passes. -/
def path : SearchTree ι α V → List α → List ι
  | nil, _ => []
  | node i c lo eq hi _, k =>
      match turn c k with
      | .lo => i :: lo.path k
      | .stop => [i]
      | .eq => i :: eq.path k.tail
      | .hi => i :: hi.path k

/-- Change the set at a word that has a last node. -/
def modify (f : Finset V → Finset V) : SearchTree ι α V → List α → SearchTree ι α V
  | nil, _ => nil
  | node i c lo eq hi vs, k =>
      match turn c k with
      | .lo => node i c (lo.modify f k) eq hi vs
      | .stop => node i c lo eq hi (f vs)
      | .eq => node i c lo (eq.modify f k.tail) hi vs
      | .hi => node i c lo eq (hi.modify f k) vs

/-- The nodes of a word on their own, with labels taken from a supply. -/
def spine (vs : Finset V) : (ℕ → ι) → List α → SearchTree ι α V
  | fresh, [] => node (fresh 0) 0 nil nil nil vs
  | fresh, c :: s => node (fresh 0) c nil (spine vs (fun n => fresh (n + 1)) s) nil ∅

/-- Add a value to the set at a word, appending the nodes it lacks. -/
def insert [DecidableEq V] (fresh : ℕ → ι) (v : V) : SearchTree ι α V → List α → SearchTree ι α V
  | nil, k => spine {v} fresh k
  | node i c lo eq hi vs, k =>
      match turn c k with
      | .lo => node i c (lo.insert fresh v k) eq hi vs
      | .stop => node i c lo eq hi (Insert.insert v vs)
      | .eq => node i c lo (eq.insert fresh v k.tail) hi vs
      | .hi => node i c lo eq (hi.insert fresh v k) vs

/-- What is left of a node once its `eq` subtree has become `e`: a node with nothing
below it goes, and its upper subtree takes its place with the lower one under it. -/
def shrink (i : ι) (c : α) (lo e hi : SearchTree ι α V) (vs : Finset V) : SearchTree ι α V :=
  match e with
  | nil => hi.hang lo
  | node i' c' lo' eq' hi' vs' => node i c lo (node i' c' lo' eq' hi' vs') hi vs

/-- Delete the last node of a word, and with it every node that has no subtree left. -/
def remove : SearchTree ι α V → List α → SearchTree ι α V
  | nil, _ => nil
  | node i c lo eq hi vs, k =>
      match turn c k with
      | .lo => node i c (lo.remove k) eq hi vs
      | .stop => hi.hang lo
      | .eq => shrink i c lo (eq.remove k.tail) hi vs
      | .hi => node i c lo eq (hi.remove k) vs

/-- Each level is a strict search tree. -/
def Ordered : SearchTree ι α V → Prop
  | nil => True
  | node _ c lo eq hi _ =>
      lo.Ordered ∧ eq.Ordered ∧ hi.Ordered ∧ (∀ d ∈ lo.level, d < c) ∧ ∀ d ∈ hi.level, c < d

/-- A node that ends a word has a set that is not empty and nothing below it; any
other node continues, and its set is empty. -/
def Tidy : SearchTree ι α V → Prop
  | nil => True
  | node _ c lo eq hi vs =>
      lo.Tidy ∧ eq.Tidy ∧ hi.Tidy ∧ (c = 0 → eq = nil ∧ vs ≠ ∅) ∧ (c ≠ 0 → eq ≠ nil ∧ vs = ∅)

/-! ### Reading a word -/

lemma turn_lo_iff {c : α} {k : List α} : turn c k = .lo ↔ peek k < c := by
  unfold turn
  split_ifs with h1 h2 h3 <;> simp [*]

lemma turn_hi_iff {c : α} {k : List α} : turn c k = .hi ↔ c < peek k := by
  unfold turn
  split_ifs with h1 h2 h3
  · simp [h1]
  · simp [h1]
  · simpa using h3.le
  · simpa using lt_of_le_of_ne (not_lt.mp h3) (Ne.symm h1)

lemma turn_stop_iff {c : α} {k : List α} : turn c k = .stop ↔ peek k = 0 ∧ c = 0 := by
  unfold turn
  split_ifs with h1 h2 h3
  · simp [← h1, h2]
  · simp [h2]
  · simpa using fun e1 e2 => h1 (e1.trans e2.symm)
  · simpa using fun e1 e2 => h1 (e1.trans e2.symm)

lemma turn_eq_iff {c : α} {k : List α} : turn c k = .eq ↔ peek k = c ∧ c ≠ 0 := by
  unfold turn
  split_ifs with h1 h2 h3
  · simp [← h1, h2]
  · simpa [h1] using fun e => h2 (h1.trans e)
  · simp [h1]
  · simp [h1]

omit [LinearOrder α] in
lemma peek_eq_zero_iff {k : List α} (hk : 0 ∉ k) : peek k = 0 ↔ k = [] := by
  cases k with
  | nil => simp
  | cons c s =>
      have hc : c ≠ 0 := fun e => hk (by simp [e])
      simp [hc]

@[simp] lemma turn_nil_zero : turn (0 : α) [] = .stop := turn_stop_iff.mpr ⟨rfl, rfl⟩

lemma eq_nil_of_turn_stop {c : α} {k : List α} (hk : 0 ∉ k) (h : turn c k = .stop) : k = [] :=
  (peek_eq_zero_iff hk).mp (turn_stop_iff.mp h).1

lemma eq_cons_of_turn_eq {c : α} {k : List α} (h : turn c k = .eq) : k = c :: k.tail := by
  obtain ⟨hhead, hc⟩ := turn_eq_iff.mp h
  cases k with
  | nil => exact absurd hhead.symm hc
  | cons d s => rw [← hhead]; rfl

omit [LinearOrder α] in
lemma zero_notMem_tail {k : List α} (hk : 0 ∉ k) : 0 ∉ k.tail :=
  fun h => hk (List.mem_of_mem_tail h)

/-- Words that leave a node differently are different. -/
lemma ne_of_turn_ne {c : α} {k q : List α} (h : turn c q ≠ turn c k) : q ≠ k :=
  fun e => h (by rw [e])

/-- Words that both go on below a node are equal when their tails are. -/
lemma eq_iff_tail {c : α} {k q : List α} (hk : turn c k = .eq) (hq : turn c q = .eq) :
    q = k ↔ q.tail = k.tail := by
  rw [eq_cons_of_turn_eq hk, eq_cons_of_turn_eq hq]
  simp

/-! ### Lookups after an operation -/

lemma find_spine (vs : Finset V) (fresh : ℕ → ι) (k q : List α) (hk : 0 ∉ k) (hq : 0 ∉ q) :
    (spine vs fresh k).find q = if q = k then some vs else none := by
  induction k generalizing fresh q with
  | nil =>
      cases hturn : turn (0 : α) q with
      | stop => simp [spine, find, eq_nil_of_turn_stop hq hturn]
      | eq => exact absurd rfl (turn_eq_iff.mp hturn).2
      | lo =>
          have hne : q ≠ [] := fun e => by simp [e] at hturn
          simp [spine, find, hturn, hne]
      | hi =>
          have hne : q ≠ [] := fun e => by simp [e] at hturn
          simp [spine, find, hturn, hne]
  | cons c s ih =>
      have hc : c ≠ 0 := fun e => hk (by simp [e])
      have hks : turn c (c :: s) = .eq := turn_eq_iff.mpr ⟨rfl, hc⟩
      cases hturn : turn c q with
      | eq =>
          simp only [spine, find, hturn]
          rw [ih _ q.tail (zero_notMem_tail hk) (zero_notMem_tail hq)]
          exact if_congr (eq_iff_tail hks hturn).symm rfl rfl
      | stop => exact absurd (turn_stop_iff.mp hturn).2 hc
      | lo =>
          have hne : q ≠ c :: s := ne_of_turn_ne (by rw [hks, hturn]; simp)
          simp [spine, find, hturn, hne]
      | hi =>
          have hne : q ≠ c :: s := ne_of_turn_ne (by rw [hks, hturn]; simp)
          simp [spine, find, hturn, hne]

/-- A lookup after an insertion. -/
theorem find_insert [DecidableEq V] (t : SearchTree ι α V) (fresh : ℕ → ι) (v : V) (k q : List α)
    (hk : 0 ∉ k) (hq : 0 ∉ q) :
    (t.insert fresh v k).find q
      = if q = k then some (Insert.insert v ((t.find k).getD ∅)) else t.find q := by
  induction t generalizing k q with
  | nil => rw [insert, find_spine _ _ _ _ hk hq]; simp [find]
  | node i c lo eq hi vs ihl ihe ihh =>
      by_cases hsame : turn c q = turn c k
      · cases hturn : turn c k with
        | lo => simp only [insert, find, hsame, hturn, ihl k q hk hq]
        | stop =>
            have hqk : q = k := by
              rw [eq_nil_of_turn_stop hk hturn, eq_nil_of_turn_stop hq (hsame.trans hturn)]
            simp only [insert, find, hturn, hqk, if_true, Option.getD_some]
        | eq =>
            simp only [insert, find, hsame, hturn,
              ihe _ _ (zero_notMem_tail hk) (zero_notMem_tail hq)]
            exact if_congr (eq_iff_tail hturn (hsame.trans hturn)).symm rfl rfl
        | hi => simp only [insert, find, hsame, hturn, ihh k q hk hq]
      · rw [if_neg (ne_of_turn_ne hsame)]
        cases hturn : turn c k <;> cases hturn' : turn c q <;>
          simp_all [insert, find]

/-- A lookup after a change of the set at a word. -/
theorem find_modify (t : SearchTree ι α V) (f : Finset V → Finset V) (k q : List α)
    (hk : 0 ∉ k) (hq : 0 ∉ q) :
    (t.modify f k).find q = if q = k then (t.find k).map f else t.find q := by
  induction t generalizing k q with
  | nil => simp [modify, find]
  | node i c lo eq hi vs ihl ihe ihh =>
      by_cases hsame : turn c q = turn c k
      · cases hturn : turn c k with
        | lo => simp only [modify, find, hsame, hturn, ihl k q hk hq]
        | stop =>
            have hqk : q = k := by
              rw [eq_nil_of_turn_stop hk hturn, eq_nil_of_turn_stop hq (hsame.trans hturn)]
            simp only [modify, find, hturn, hqk, if_true, Option.map_some]
        | eq =>
            simp only [modify, find, hsame, hturn,
              ihe _ _ (zero_notMem_tail hk) (zero_notMem_tail hq)]
            exact if_congr (eq_iff_tail hturn (hsame.trans hturn)).symm rfl rfl
        | hi => simp only [modify, find, hsame, hturn, ihh k q hk hq]
      · rw [if_neg (ne_of_turn_ne hsame)]
        cases hturn : turn c k <;> cases hturn' : turn c q <;>
          simp_all [modify, find]

lemma find_eq_none_of_gt {t : SearchTree ι α V} {q : List α} (h : ∀ d ∈ t.level, d < peek q) :
    t.find q = none := by
  induction t with
  | nil => rfl
  | node i c lo eq hi vs _ _ ihh =>
      have hturn : turn c q = .hi := turn_hi_iff.mpr (h c (by simp [level]))
      simp only [find, hturn]
      exact ihh fun d hd => h d (by simp [level, hd])

/-- Hanging: a word below the bound is looked up in the lower tree, which is found by
going left all the way. -/
lemma find_hang_of_lt {t s : SearchTree ι α V} {c : α} {q : List α} (ht : ∀ d ∈ t.level, c < d)
    (hq : peek q ≤ c) : (t.hang s).find q = s.find q := by
  induction t with
  | nil => rfl
  | node i d lo eq hi vs ihl _ _ =>
      have hturn : turn d q = .lo :=
        turn_lo_iff.mpr (lt_of_le_of_lt hq (ht d (by simp [level])))
      simp only [hang, find, hturn]
      exact ihl fun e he => ht e (by simp [level, he])

/-- Hanging: a word above the bound is looked up in the upper tree as before. -/
lemma find_hang_of_ge {t s : SearchTree ι α V} {c : α} {q : List α} (hs : ∀ d ∈ s.level, d < c)
    (hq : c ≤ peek q) : (t.hang s).find q = t.find q := by
  induction t with
  | nil =>
      exact find_eq_none_of_gt fun d hd => lt_of_lt_of_le (hs d hd) hq
  | node i d lo eq hi vs ihl _ _ =>
      cases hturn : turn d q <;> simp only [hang, find, hturn, ihl]

/-- At the bound itself nothing is found. -/
lemma find_hang_of_eq {t s : SearchTree ι α V} {c : α} {q : List α} (ht : ∀ d ∈ t.level, c < d)
    (hs : ∀ d ∈ s.level, d < c) (hq : peek q = c) : (t.hang s).find q = none := by
  rw [find_hang_of_lt ht hq.le]
  exact find_eq_none_of_gt fun d hd => hq ▸ hs d hd

/-- A lookup after a node has shrunk to what its `eq` subtree `e` leaves of it. -/
lemma find_shrink {i : ι} {c : α} {lo e hi : SearchTree ι α V} {vs : Finset V} {q : List α}
    (hlo : ∀ d ∈ lo.level, d < c) (hhi : ∀ d ∈ hi.level, c < d) (hc : c ≠ 0) :
    (shrink i c lo e hi vs).find q = (node i c lo e hi vs).find q := by
  cases e with
  | node => rfl
  | nil =>
      rw [shrink]
      cases hturn : turn c q with
      | lo => simp only [find, hturn, find_hang_of_lt hhi (turn_lo_iff.mp hturn).le]
      | hi => simp only [find, hturn, find_hang_of_ge hlo (turn_hi_iff.mp hturn).le]
      | eq => simp only [find, hturn, find_hang_of_eq hhi hlo (turn_eq_iff.mp hturn).1]
      | stop => exact absurd (turn_stop_iff.mp hturn).2 hc

/-- A lookup after a removal. -/
theorem find_remove (t : SearchTree ι α V) (ht : t.Ordered) (k q : List α) (hk : 0 ∉ k)
    (hq : 0 ∉ q) :
    (t.remove k).find q = if q = k then none else t.find q := by
  induction t generalizing k q with
  | nil => simp [remove, find]
  | node i c lo eq hi vs ihl ihe ihh =>
      obtain ⟨hlo, heq, hhi, hlt, hgt⟩ := ht
      cases hturn : turn c k with
      | lo =>
          simp only [remove, find, hturn]
          cases hturn' : turn c q with
          | lo => exact ihl hlo k q hk hq
          | _ =>
              have hne : q ≠ k := ne_of_turn_ne (by rw [hturn', hturn]; decide)
              simp only [if_neg hne]
      | hi =>
          simp only [remove, find, hturn]
          cases hturn' : turn c q with
          | hi => exact ihh hhi k q hk hq
          | _ =>
              have hne : q ≠ k := ne_of_turn_ne (by rw [hturn', hturn]; decide)
              simp only [if_neg hne]
      | eq =>
          have hc := (turn_eq_iff.mp hturn).2
          simp only [remove, hturn]
          rw [find_shrink hlt hgt hc]
          simp only [find]
          cases hturn' : turn c q with
          | eq =>
              simp only [ihe heq _ _ (zero_notMem_tail hk) (zero_notMem_tail hq)]
              exact if_congr (eq_iff_tail hturn hturn').symm rfl rfl
          | _ =>
              have hne : q ≠ k := ne_of_turn_ne (by rw [hturn', hturn]; decide)
              simp only [if_neg hne]
      | stop =>
          obtain ⟨hpeek, rfl⟩ := turn_stop_iff.mp hturn
          have hk0 := eq_nil_of_turn_stop hk hturn
          simp only [remove, hturn, find]
          cases hturn' : turn 0 q with
          | stop =>
              rw [find_hang_of_eq hgt hlt (turn_stop_iff.mp hturn').1,
                if_pos (hk0 ▸ eq_nil_of_turn_stop hq hturn')]
          | eq => exact absurd rfl (turn_eq_iff.mp hturn').2
          | lo =>
              rw [find_hang_of_lt hgt (turn_lo_iff.mp hturn').le,
                if_neg (ne_of_turn_ne (by rw [hturn, hturn']; simp))]
          | hi =>
              rw [find_hang_of_ge hlt (turn_hi_iff.mp hturn').le,
                if_neg (ne_of_turn_ne (by rw [hturn, hturn']; simp))]

/-- Adding to a word that is there only changes its set. -/
lemma insert_of_find [DecidableEq V] {t : SearchTree ι α V} {k : List α} {vs : Finset V}
    (fresh : ℕ → ι) (v : V) (h : t.find k = some vs) :
    t.insert fresh v k = t.modify (Insert.insert v) k := by
  induction t generalizing k with
  | nil => cases h
  | node i c lo eq hi ws ihl ihe ihh =>
      cases hturn : turn c k <;> simp only [find, hturn] at h <;>
        simp only [insert, modify, hturn, ihl, ihe, ihh, h]

/-! ### The levels stay search trees -/

lemma mem_level_insert [DecidableEq V] (t : SearchTree ι α V) (fresh : ℕ → ι) (v : V) (k : List α)
    (d : α) : d ∈ (t.insert fresh v k).level ↔ d ∈ t.level ∨ d = peek k := by
  induction t with
  | nil => cases k <;> simp [insert, spine, level]
  | node i c lo eq hi vs ihl _ ihh =>
      cases hturn : turn c k with
      | lo =>
          simp only [insert, hturn, level, List.mem_cons, List.mem_append, ihl]
          rw [or_right_comm, or_assoc, or_assoc, or_assoc]
      | hi => simp only [insert, hturn, level, List.mem_cons, List.mem_append, ihh, or_assoc]
      | stop =>
          have hpeek : peek k = c := by rw [(turn_stop_iff.mp hturn).1, (turn_stop_iff.mp hturn).2]
          simp only [insert, hturn, level, List.mem_cons, hpeek]
          exact (or_iff_left_of_imp Or.inl).symm
      | eq =>
          simp only [insert, hturn, level, List.mem_cons, (turn_eq_iff.mp hturn).1]
          exact (or_iff_left_of_imp Or.inl).symm

lemma Ordered.spine (vs : Finset V) (fresh : ℕ → ι) (k : List α) :
    (spine vs fresh k).Ordered := by
  induction k generalizing fresh with
  | nil => simp [SearchTree.spine, Ordered, level]
  | cons c s ih => simpa [SearchTree.spine, Ordered, level] using ih _

lemma Ordered.insert [DecidableEq V] {t : SearchTree ι α V} (ht : t.Ordered) (fresh : ℕ → ι) (v : V)
    (k : List α) : (t.insert fresh v k).Ordered := by
  induction t generalizing k with
  | nil => exact Ordered.spine _ _ _
  | node i c lo eq hi vs ihl ihe ihh =>
      obtain ⟨hlo, heq, hhi, hlt, hgt⟩ := ht
      cases hturn : turn c k with
      | lo =>
          simp only [SearchTree.insert, hturn]
          refine ⟨ihl hlo k, heq, hhi, fun d hd => ?_, hgt⟩
          rcases (mem_level_insert lo fresh v k d).mp hd with hd' | rfl
          · exact hlt d hd'
          · exact turn_lo_iff.mp hturn
      | hi =>
          simp only [SearchTree.insert, hturn]
          refine ⟨hlo, heq, ihh hhi k, hlt, fun d hd => ?_⟩
          rcases (mem_level_insert hi fresh v k d).mp hd with hd' | rfl
          · exact hgt d hd'
          · exact turn_hi_iff.mp hturn
      | stop => simpa only [SearchTree.insert, hturn] using ⟨hlo, heq, hhi, hlt, hgt⟩
      | eq => simpa only [SearchTree.insert, hturn] using ⟨hlo, ihe heq _, hhi, hlt, hgt⟩

@[simp] lemma level_modify (t : SearchTree ι α V) (f : Finset V → Finset V) (k : List α) :
    (t.modify f k).level = t.level := by
  induction t with
  | nil => rfl
  | node i c lo eq hi vs ihl _ ihh =>
      cases hturn : turn c k <;> simp only [modify, hturn, level, ihl, ihh]

lemma Ordered.modify {t : SearchTree ι α V} (ht : t.Ordered) (f : Finset V → Finset V)
    (k : List α) : (t.modify f k).Ordered := by
  induction t generalizing k with
  | nil => exact trivial
  | node i c lo eq hi vs ihl ihe ihh =>
      obtain ⟨hlo, heq, hhi, hlt, hgt⟩ := ht
      cases hturn : turn c k <;> simp only [SearchTree.modify, hturn, Ordered, level_modify]
      case lo => exact ⟨ihl hlo k, heq, hhi, hlt, hgt⟩
      case stop => exact ⟨hlo, heq, hhi, hlt, hgt⟩
      case eq => exact ⟨hlo, ihe heq _, hhi, hlt, hgt⟩
      case hi => exact ⟨hlo, heq, ihh hhi k, hlt, hgt⟩

omit [Zero α] in
lemma Ordered.hang {t s : SearchTree ι α V} {c : α} (ht : t.Ordered) (hs : s.Ordered)
    (hgt : ∀ d ∈ t.level, c < d) (hlt : ∀ d ∈ s.level, d < c) : (t.hang s).Ordered := by
  induction t with
  | nil => exact hs
  | node i d lo eq hi vs ihl _ _ =>
      obtain ⟨hlo, heq, hhi, hlt', hgt'⟩ := ht
      have hcd : c < d := hgt d (by simp [level])
      refine ⟨ihl hlo fun e he => hgt e (by simp [level, he]), heq, hhi, fun e he => ?_, hgt'⟩
      rcases (mem_level_hang lo s e).mp he with he' | he'
      · exact hlt' e he'
      · exact (hlt e he').trans hcd

omit [LinearOrder α] [Zero α] in
lemma mem_level_shrink {i : ι} {c d : α} {lo e eq hi : SearchTree ι α V} {vs : Finset V}
    (h : d ∈ (shrink i c lo e hi vs).level) : d ∈ (node i c lo eq hi vs).level := by
  cases e with
  | node => exact h
  | nil =>
      rw [shrink, mem_level_hang] at h
      simp only [level, List.mem_cons, List.mem_append]
      exact Or.inr h.symm

lemma mem_level_remove {t : SearchTree ι α V} {k : List α} {d : α} (h : d ∈ (t.remove k).level) :
    d ∈ t.level := by
  induction t with
  | nil => exact h
  | node i c lo eq hi vs ihl _ ihh =>
      cases hturn : turn c k with
      | lo =>
          simp only [remove, hturn, level, List.mem_cons, List.mem_append] at h ⊢
          exact h.imp_right (Or.imp_left ihl)
      | hi =>
          simp only [remove, hturn, level, List.mem_cons, List.mem_append] at h ⊢
          exact h.imp_right (Or.imp_right ihh)
      | stop =>
          simp only [remove, hturn, mem_level_hang] at h
          simp only [level, List.mem_cons, List.mem_append]
          exact Or.inr h.symm
      | eq =>
          simp only [remove, hturn] at h
          exact mem_level_shrink h

lemma Ordered.remove {t : SearchTree ι α V} (ht : t.Ordered) (k : List α) :
    (t.remove k).Ordered := by
  induction t generalizing k with
  | nil => exact trivial
  | node i c lo eq hi vs ihl ihe ihh =>
      obtain ⟨hlo, heq, hhi, hlt, hgt⟩ := ht
      cases hturn : turn c k with
      | lo =>
          simp only [SearchTree.remove, hturn]
          exact ⟨ihl hlo k, heq, hhi, fun d hd => hlt d (mem_level_remove hd), hgt⟩
      | hi =>
          simp only [SearchTree.remove, hturn]
          exact ⟨hlo, heq, ihh hhi k, hlt, fun d hd => hgt d (mem_level_remove hd)⟩
      | stop =>
          simp only [SearchTree.remove, hturn]
          exact hhi.hang hlo hgt hlt
      | eq =>
          simp only [SearchTree.remove, hturn]
          cases he : eq.remove k.tail with
          | nil => exact hhi.hang hlo hgt hlt
          | node => exact ⟨hlo, he ▸ ihe heq _, hhi, hlt, hgt⟩

/-! ### No dead ends -/

omit [LinearOrder α] in
lemma Tidy.spine {vs : Finset V} (hvs : vs ≠ ∅) (fresh : ℕ → ι) (k : List α) (hk : 0 ∉ k) :
    (spine vs fresh k).Tidy := by
  induction k generalizing fresh with
  | nil => simp [SearchTree.spine, Tidy, hvs]
  | cons c s ih =>
      have hc : c ≠ 0 := fun e => hk (by simp [e])
      have hne : SearchTree.spine vs (fun n => fresh (n + 1)) s ≠ nil := by
        cases s <;> simp [SearchTree.spine]
      simp only [SearchTree.spine, Tidy, hc, false_implies, true_and, ne_eq, not_false_eq_true,
        true_implies, hne, and_true]
      exact ih _ fun h => hk (List.mem_cons_of_mem _ h)

lemma insert_ne_nil [DecidableEq V] (t : SearchTree ι α V) (fresh : ℕ → ι) (v : V) (k : List α) :
    t.insert fresh v k ≠ nil := by
  cases t with
  | nil => cases k <;> simp [insert, spine]
  | node i c lo eq hi vs => cases hturn : turn c k <;> simp [insert, hturn]

lemma modify_eq_nil_iff (t : SearchTree ι α V) (f : Finset V → Finset V) (k : List α) :
    t.modify f k = nil ↔ t = nil := by
  cases t with
  | nil => simp [modify]
  | node i c lo eq hi vs => cases hturn : turn c k <;> simp [modify, hturn]

lemma Tidy.insert [DecidableEq V] {t : SearchTree ι α V} (ht : t.Tidy) (fresh : ℕ → ι) (v : V)
    (k : List α) (hk : 0 ∉ k) : (t.insert fresh v k).Tidy := by
  induction t generalizing k with
  | nil => exact Tidy.spine (Finset.singleton_ne_empty v) _ _ hk
  | node i c lo eq hi vs ihl ihe ihh =>
      obtain ⟨hlo, heq, hhi, hend, hgo⟩ := ht
      cases hturn : turn c k <;> simp only [SearchTree.insert, hturn]
      case lo => exact ⟨ihl hlo k hk, heq, hhi, hend, hgo⟩
      case stop =>
        obtain ⟨_, rfl⟩ := turn_stop_iff.mp hturn
        exact ⟨hlo, heq, hhi, fun _ => ⟨(hend rfl).1, Finset.insert_ne_empty v vs⟩,
          fun h => absurd rfl h⟩
      case eq =>
        have hc := (turn_eq_iff.mp hturn).2
        exact ⟨hlo, ihe heq _ (zero_notMem_tail hk), hhi, fun h => absurd h hc,
          fun h => ⟨insert_ne_nil _ _ _ _, (hgo h).2⟩⟩
      case hi => exact ⟨hlo, heq, ihh hhi k hk, hend, hgo⟩

lemma Tidy.modify {t : SearchTree ι α V} (ht : t.Tidy) (f : Finset V → Finset V) (k : List α)
    (hf : ∀ vs, t.find k = some vs → f vs ≠ ∅) : (t.modify f k).Tidy := by
  induction t generalizing k with
  | nil => exact trivial
  | node i c lo eq hi vs ihl ihe ihh =>
      obtain ⟨hlo, heq, hhi, hend, hgo⟩ := ht
      cases hturn : turn c k <;> simp only [find, hturn] at hf <;>
        simp only [SearchTree.modify, hturn]
      case lo => exact ⟨ihl hlo k hf, heq, hhi, hend, hgo⟩
      case stop =>
        obtain ⟨_, rfl⟩ := turn_stop_iff.mp hturn
        exact ⟨hlo, heq, hhi, fun _ => ⟨(hend rfl).1, hf vs rfl⟩, fun h => absurd rfl h⟩
      case eq =>
        have hc := (turn_eq_iff.mp hturn).2
        exact ⟨hlo, ihe heq _ hf, hhi, fun h => absurd h hc,
          fun h => ⟨(modify_eq_nil_iff _ _ _).not.mpr (hgo h).1, (hgo h).2⟩⟩
      case hi => exact ⟨hlo, heq, ihh hhi k hf, hend, hgo⟩

omit [LinearOrder α] in
lemma Tidy.hang {t s : SearchTree ι α V} (ht : t.Tidy) (hs : s.Tidy) : (t.hang s).Tidy := by
  induction t with
  | nil => exact hs
  | node i c lo eq hi vs ihl _ _ => exact ⟨ihl ht.1, ht.2⟩

lemma Tidy.remove {t : SearchTree ι α V} (ht : t.Tidy) (k : List α) : (t.remove k).Tidy := by
  induction t generalizing k with
  | nil => exact trivial
  | node i c lo eq hi vs ihl ihe ihh =>
      obtain ⟨hlo, heq, hhi, hend, hgo⟩ := ht
      cases hturn : turn c k <;> simp only [SearchTree.remove, hturn]
      case lo => exact ⟨ihl hlo k, heq, hhi, hend, hgo⟩
      case stop => exact hhi.hang hlo
      case eq =>
        have hc := (turn_eq_iff.mp hturn).2
        cases he : eq.remove k.tail with
        | nil => exact hhi.hang hlo
        | node =>
            exact ⟨hlo, he ▸ ihe heq _, hhi, fun h => absurd h hc, fun h => ⟨by simp, (hgo h).2⟩⟩
      case hi => exact ⟨hlo, heq, ihh hhi k, hend, hgo⟩

/-- Removing the word of fresh nodes leaves nothing of them. -/
lemma remove_spine (vs : Finset V) (fresh : ℕ → ι) (k : List α) :
    (spine vs fresh k).remove k = nil := by
  induction k generalizing fresh with
  | nil => simp only [spine, remove, turn_nil_zero, hang]
  | cons c k ih =>
      by_cases hc : c = 0
      · have hturn : turn c (c :: k) = .stop := turn_stop_iff.mpr ⟨hc, hc⟩
        simp only [spine, remove, hturn, hang]
      · have hturn : turn c (c :: k) = .eq := turn_eq_iff.mpr ⟨rfl, hc⟩
        simp only [spine, remove, hturn, List.tail_cons, ih, shrink, hang]

/-- **Removing a word that was just inserted** gives back the tree: where the word was not
there, the nodes that go are the fresh ones. -/
theorem remove_insert [DecidableEq V] {t : SearchTree ι α V} (ht : t.Tidy) (fresh : ℕ → ι)
    (v : V) {k : List α} (h : t.find k = none) : (t.insert fresh v k).remove k = t := by
  induction t generalizing k with
  | nil => exact remove_spine {v} fresh k
  | node i c lo eq hi vs ihl ihe ihh =>
      obtain ⟨hlo, heq, hhi, -, hgo⟩ := ht
      cases hturn : turn c k <;> simp only [find, hturn, reduceCtorEq] at h
      case lo => simp only [insert, remove, hturn, ihl hlo h]
      case eq =>
        -- the node stays: something was below it before the insertion
        simp only [insert, remove, hturn, ihe heq h]
        cases eq with
        | nil => exact absurd rfl (hgo (turn_eq_iff.mp hturn).2).1
        | node => rfl
      case hi => simp only [insert, remove, hturn, ihh hhi h]

/-- The set at a word that is there is not empty. -/
lemma Tidy.find_ne_empty {t : SearchTree ι α V} (ht : t.Tidy) {k : List α} {vs : Finset V}
    (h : t.find k = some vs) : vs ≠ ∅ := by
  induction t generalizing k with
  | nil => cases h
  | node i c lo eq hi ws ihl ihe ihh =>
      obtain ⟨hlo, heq, hhi, hend, _⟩ := ht
      cases hturn : turn c k <;> simp only [find, hturn] at h
      case lo => exact ihl hlo h
      case stop =>
        rw [← Option.some.inj h]
        exact (hend (turn_stop_iff.mp hturn).2).2
      case eq => exact ihe heq h
      case hi => exact ihh hhi h

lemma peek_mem_level_of_find {t : SearchTree ι α V} {k : List α} {vs : Finset V}
    (h : t.find k = some vs) : peek k ∈ t.level := by
  induction t with
  | nil => cases h
  | node i c lo eq hi ws ihl _ ihh =>
      cases hturn : turn c k <;> simp only [find, hturn] at h <;>
        simp only [level, List.mem_cons, List.mem_append]
      case lo => exact Or.inr (Or.inl (ihl h))
      case stop =>
        obtain ⟨h1, h2⟩ := turn_stop_iff.mp hturn
        exact Or.inl (h1.trans h2.symm)
      case eq => exact Or.inl (turn_eq_iff.mp hturn).1
      case hi => exact Or.inr (Or.inr (ihh h))

/-- Through the root of a tree that is not empty leads a word that is there. -/
lemma Tidy.exists_word {t : SearchTree ι α V} (ht : t.Tidy) (hne : t ≠ nil) :
    ∃ k vs, 0 ∉ k ∧ t.find k = some vs ∧ ∀ i ∈ t.root, i ∈ t.path k := by
  induction t with
  | nil => exact absurd rfl hne
  | node j c lo eq hi vs _ ihe _ =>
      obtain ⟨_, heq, _, hend, hgo⟩ := ht
      by_cases hc : c = 0
      · subst hc
        exact ⟨[], vs, by simp, by simp [find], by simp [root, path]⟩
      · obtain ⟨k, ws, hk, hfind, _⟩ := ihe heq (hgo hc).1
        have hturn : turn c (c :: k) = .eq := turn_eq_iff.mpr ⟨rfl, hc⟩
        refine ⟨c :: k, ws, ?_, by simp [find, hturn, hfind], by simp [root, path, hturn]⟩
        simp [hk, Ne.symm hc]

/-- Every node lies on the way to some word that is there. -/
theorem exists_word_through {t : SearchTree ι α V} (ht : t.Tidy) (ho : t.Ordered) {i : ι}
    (hi : i ∈ t.labels) : ∃ k vs, 0 ∉ k ∧ t.find k = some vs ∧ i ∈ t.path k := by
  induction t with
  | nil => simp [labels] at hi
  | node j c lo eq hi' vs ihl ihe ihh =>
      by_cases hij : i = j
      · obtain ⟨k, ws, hk, hfind, hpath⟩ := ht.exists_word (by simp)
        exact ⟨k, ws, hk, hfind, hpath i (by simp [root, hij])⟩
      · obtain ⟨hlo, heq, hhi, hend, hgo⟩ := ht
        obtain ⟨olo, oeq, ohi, hlt, hgt⟩ := ho
        simp only [labels, List.mem_cons, hij, false_or, List.mem_append, or_assoc] at hi
        rcases hi with hi | hi | hi
        · obtain ⟨k, ws, hk, hfind, hpath⟩ := ihl hlo olo hi
          have hturn : turn c k = .lo :=
            turn_lo_iff.mpr (hlt _ (peek_mem_level_of_find hfind))
          exact ⟨k, ws, hk, by simp [find, hturn, hfind], by simp [path, hturn, hpath]⟩
        · obtain ⟨k, ws, hk, hfind, hpath⟩ := ihe heq oeq hi
          have hc : c ≠ 0 := fun e => by rw [(hend e).1] at hi; simp [labels] at hi
          have hturn : turn c (c :: k) = .eq := turn_eq_iff.mpr ⟨rfl, hc⟩
          refine ⟨c :: k, ws, by simp [hk, Ne.symm hc], by simp [find, hturn, hfind],
            by simp [path, hturn, hpath]⟩
        · obtain ⟨k, ws, hk, hfind, hpath⟩ := ihh hhi ohi hi
          have hturn : turn c k = .hi :=
            turn_hi_iff.mpr (hgt _ (peek_mem_level_of_find hfind))
          exact ⟨k, ws, hk, by simp [find, hturn, hfind], by simp [path, hturn, hpath]⟩

/-! ### Chains of `eq` links -/

lemma EqOnly.modify {t : SearchTree ι α V} (ht : t.EqOnly) (f : Finset V → Finset V) (k : List α) :
    (t.modify f k).EqOnly := by
  induction t generalizing k with
  | nil => exact trivial
  | node i c lo eq hi vs ihl ihe ihh =>
      obtain ⟨rfl, rfl, heq⟩ := ht
      cases hturn : turn c k <;> simp only [SearchTree.modify, hturn, EqOnly, true_and]
      case lo => exact heq
      case stop => exact heq
      case eq => exact ihe heq _
      case hi => exact heq

/-- A chain keeps its nodes when a set changes. -/
lemma EqOnly.modify_node {i : ι} {c : α} {lo eq hi : SearchTree ι α V} {vs : Finset V}
    (h : (node i c lo eq hi vs).EqOnly) (f : Finset V → Finset V) (k : List α) :
    ∃ eq' vs', (node i c lo eq hi vs).modify f k = node i c nil eq' nil vs' ∧ eq'.EqOnly := by
  obtain ⟨rfl, rfl, heq⟩ := h
  cases hturn : turn c k with
  | lo => exact ⟨eq, vs, by simp only [SearchTree.modify, hturn], heq⟩
  | stop => exact ⟨eq, f vs, by simp only [SearchTree.modify, hturn], heq⟩
  | eq => exact ⟨eq.modify f k.tail, vs, by simp only [SearchTree.modify, hturn], heq.modify f _⟩
  | hi => exact ⟨eq, vs, by simp only [SearchTree.modify, hturn], heq⟩

/-- Removing the only word of a chain leaves nothing. -/
lemma EqOnly.remove_eq_nil {t : SearchTree ι α V} (ht : t.EqOnly) {k : List α} {vs : Finset V}
    (h : t.find k = some vs) : t.remove k = nil := by
  induction t generalizing k with
  | nil => rfl
  | node i c lo eq hi ws ihl ihe ihh =>
      obtain ⟨rfl, rfl, heq⟩ := ht
      cases hturn : turn c k <;> simp only [find, hturn] at h
      case lo => cases h
      case stop => simp only [remove, hturn, hang]
      case eq => simp only [remove, hturn, ihe heq h, shrink, hang]
      case hi => cases h

end Operations

end SearchTree

end TernarySearch
