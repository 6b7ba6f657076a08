import Napd.Library.TernarySearch

/-!
A ternary search tree with a hole: the frames between the root and the hole, innermost
first. `plug fs t` fills the hole with `t`.
-/

namespace TernarySearch

variable {ι α V : Type*}

/-- A node with a hole in the place of one of its subtrees. -/
inductive Frame (ι α V : Type*) where
  | inLo (i : ι) (c : α) (eq hi : SearchTree ι α V) (vs : Finset V) : Frame ι α V
  | inEq (i : ι) (c : α) (lo hi : SearchTree ι α V) (vs : Finset V) : Frame ι α V
  | inHi (i : ι) (c : α) (lo eq : SearchTree ι α V) (vs : Finset V) : Frame ι α V

namespace Frame

/-- The label of the node. -/
def label : Frame ι α V → ι
  | inLo i _ _ _ _ => i
  | inEq i _ _ _ _ => i
  | inHi i _ _ _ _ => i

/-- Fill the hole of a frame. -/
def fill : Frame ι α V → SearchTree ι α V → SearchTree ι α V
  | inLo i c eq hi vs, t => .node i c t eq hi vs
  | inEq i c lo hi vs, t => .node i c lo t hi vs
  | inHi i c lo eq vs, t => .node i c lo eq t vs

/-- The hole lies in the same level as the node. -/
def SameLevel : Frame ι α V → Prop
  | inLo _ _ _ _ _ => True
  | inEq _ _ _ _ _ => False
  | inHi _ _ _ _ _ => True

end Frame

/-- Fill the hole inside a list of frames, innermost first. -/
def plug : List (Frame ι α V) → SearchTree ι α V → SearchTree ι α V
  | [], t => t
  | f :: fs, t => plug fs (f.fill t)

/-- The label of the node right above the hole, or `p` if there is none. -/
def parent (fs : List (Frame ι α V)) (p : Option ι) : Option ι :=
  match fs with
  | [] => p
  | f :: _ => some f.label

@[simp] lemma plug_nil (t : SearchTree ι α V) : plug [] t = t := rfl

@[simp] lemma plug_cons (f : Frame ι α V) (fs : List (Frame ι α V)) (t : SearchTree ι α V) :
    plug (f :: fs) t = plug fs (f.fill t) := rfl

lemma plug_append (fs gs : List (Frame ι α V)) (t : SearchTree ι α V) :
    plug (fs ++ gs) t = plug gs (plug fs t) := by
  induction fs generalizing t with
  | nil => rfl
  | cons f fs ih => exact ih _

/-- One more frame outside: the tree is filled and becomes a subtree. -/
lemma plug_concat (fs : List (Frame ι α V)) (f : Frame ι α V) (t : SearchTree ι α V) :
    plug (fs ++ [f]) t = f.fill (plug fs t) := plug_append fs [f] t

@[simp] lemma parent_concat (fs : List (Frame ι α V)) (f : Frame ι α V) (p : Option ι) :
    parent (fs ++ [f]) p = parent fs (some f.label) := by
  cases fs <;> rfl

lemma plug_cons_ne_nil (f : Frame ι α V) (fs : List (Frame ι α V)) (t : SearchTree ι α V) :
    plug (f :: fs) t ≠ .nil := by
  induction fs generalizing f t with
  | nil => cases f <;> simp [plug, Frame.fill]
  | cons g fs ih => exact ih g _

section

variable [LinearOrder α] [Zero α]

/-- The last node of a word that is there, and what changing its set does. -/
lemma exists_plug_of_find {t : SearchTree ι α V} {k : List α} {vs : Finset V}
    (h : t.find k = some vs) :
    ∃ fs i c lo eq hi, t.lastNode k = some i ∧ t = plug fs (.node i c lo eq hi vs) ∧
      ∀ f, t.modify f k = plug fs (.node i c lo eq hi (f vs)) := by
  induction t generalizing k with
  | nil => cases h
  | node j d lo eq hi ws ihl ihe ihh =>
      cases hturn : SearchTree.turn d k <;> simp only [SearchTree.find, hturn] at h <;>
        simp only [SearchTree.lastNode, SearchTree.modify, hturn]
      case lo =>
        obtain ⟨fs, i, c, lo', eq', hi', hlast, hplug, hmod⟩ := ihl h
        refine ⟨fs ++ [.inLo j d eq hi ws], i, c, lo', eq', hi', hlast, ?_, fun f => ?_⟩
        · rw [plug_concat, ← hplug]; rfl
        · rw [plug_concat, ← hmod f]; rfl
      case stop =>
        exact ⟨[], j, d, lo, eq, hi, rfl, by rw [Option.some.inj h]; rfl,
          fun f => by rw [Option.some.inj h]; rfl⟩
      case eq =>
        obtain ⟨fs, i, c, lo', eq', hi', hlast, hplug, hmod⟩ := ihe h
        refine ⟨fs ++ [.inEq j d lo hi ws], i, c, lo', eq', hi', hlast, ?_, fun f => ?_⟩
        · rw [plug_concat, ← hplug]; rfl
        · rw [plug_concat, ← hmod f]; rfl
      case hi =>
        obtain ⟨fs, i, c, lo', eq', hi', hlast, hplug, hmod⟩ := ihh h
        refine ⟨fs ++ [.inHi j d lo eq ws], i, c, lo', eq', hi', hlast, ?_, fun f => ?_⟩
        · rw [plug_concat, ← hplug]; rfl
        · rw [plug_concat, ← hmod f]; rfl

lemma lastNode_eq_none_iff {t : SearchTree ι α V} {k : List α} :
    t.lastNode k = none ↔ t.find k = none := by
  induction t generalizing k with
  | nil => simp [SearchTree.lastNode, SearchTree.find]
  | node j d lo eq hi ws ihl ihe ihh =>
      cases hturn : SearchTree.turn d k <;>
        simp only [SearchTree.lastNode, SearchTree.find, hturn, ihl, ihe, ihh]
      simp

/-- Where a word that is not there goes in: at a hole, with the rest of the word. -/
def InsertionPoint (t : SearchTree ι α V) (k : List α) (fs : List (Frame ι α V))
    (s : List α) : Prop :=
  t = plug fs .nil ∧
    ∀ [DecidableEq V] fresh v, t.insert fresh v k = plug fs (SearchTree.spine {v} fresh s)

namespace InsertionPoint

variable {i : ι} {c : α} {lo eq hi : SearchTree ι α V} {vs : Finset V} {k s : List α}
  {fs : List (Frame ι α V)}

lemma nil : InsertionPoint (.nil : SearchTree ι α V) k [] k := ⟨rfl, fun _ _ => rfl⟩

/-- One more frame outside, below which the insertion goes on. -/
lemma frame {t : SearchTree ι α V} {l : List α} (h : InsertionPoint t l fs s) {g : Frame ι α V}
    (hinsert : ∀ [DecidableEq V] fresh v,
      (g.fill t).insert fresh v k = g.fill (t.insert fresh v l)) :
    InsertionPoint (g.fill t) k (fs ++ [g]) s := by
  refine ⟨?_, fun fresh v => ?_⟩
  · rw [plug_concat, ← h.1]
  · rw [plug_concat, ← h.2, hinsert]

lemma inLo (h : InsertionPoint lo k fs s) (hturn : SearchTree.turn c k = .lo) :
    InsertionPoint (.node i c lo eq hi vs) k (fs ++ [.inLo i c eq hi vs]) s := by
  refine h.frame (g := .inLo i c eq hi vs) fun fresh v => ?_
  simp only [SearchTree.insert, hturn, Frame.fill]

lemma inEq (h : InsertionPoint eq k.tail fs s) (hturn : SearchTree.turn c k = .eq) :
    InsertionPoint (.node i c lo eq hi vs) k (fs ++ [.inEq i c lo hi vs]) s := by
  refine h.frame (g := .inEq i c lo hi vs) fun fresh v => ?_
  simp only [SearchTree.insert, hturn, Frame.fill]

lemma inHi (h : InsertionPoint hi k fs s) (hturn : SearchTree.turn c k = .hi) :
    InsertionPoint (.node i c lo eq hi vs) k (fs ++ [.inHi i c lo eq vs]) s := by
  refine h.frame (g := .inHi i c lo eq vs) fun fresh v => ?_
  simp only [SearchTree.insert, hturn, Frame.fill]

end InsertionPoint

/-- The last branch on the way to a word that is there: the last node `b` on it that has
a lower or an upper subtree, or is one. What the word's removal deletes is `b` and the
chain below it, and what takes its place is its upper subtree over its lower one. If it
has neither, it is itself in the lower or upper subtree of its parent. -/
structure LastBranch (t : SearchTree ι α V) (k : List α) (fs : List (Frame ι α V)) (b : ι) (c : α)
    (lo hi : SearchTree ι α V) : Prop where
  modify : ∀ f, ∃ eq vs, t.modify f k = plug fs (.node b c lo eq hi vs) ∧ eq.EqOnly
  remove : t.remove k = plug fs (hi.hang lo)
  sameLevel : lo = .nil → hi = .nil → ∃ f gs, fs = f :: gs ∧ f.SameLevel

namespace LastBranch

variable {i b : ι} {c d : α} {lo eq hi lo' eq' hi' : SearchTree ι α V} {vs ws us : Finset V}
  {k : List α} {fs : List (Frame ι α V)}

/-- The last branch is the node itself, and its word ends there. -/
lemma here_stop (hbranch : ¬ (lo = .nil ∧ hi = .nil)) (hturn : SearchTree.turn c k = .stop)
    (heq : eq = .nil) : LastBranch (.node i c lo eq hi vs) k [] i c lo hi := by
  refine ⟨fun f => ⟨eq, f vs, ?_, heq ▸ trivial⟩, ?_, fun h1 h2 => absurd ⟨h1, h2⟩ hbranch⟩
  · simp only [SearchTree.modify, hturn, plug_nil]
  · simp only [SearchTree.remove, hturn, plug_nil]

/-- The last branch is the node itself, with a chain below it. -/
lemma here_eq (hbranch : ¬ (lo = .nil ∧ hi = .nil)) (hturn : SearchTree.turn c k = .eq)
    (heq : eq.EqOnly) (hfind : eq.find k.tail = some ws) :
    LastBranch (.node i c lo eq hi vs) k [] i c lo hi := by
  refine ⟨fun f => ⟨eq.modify f k.tail, vs, ?_, heq.modify f _⟩, ?_,
    fun h1 h2 => absurd ⟨h1, h2⟩ hbranch⟩
  · simp only [SearchTree.modify, hturn, plug_nil]
  · simp only [SearchTree.remove, hturn, heq.remove_eq_nil hfind, SearchTree.shrink, plug_nil]

/-- One more frame outside, below which the change and the removal go on. -/
lemma frame {t : SearchTree ι α V} {l : List α} (h : LastBranch t l fs b d lo' hi')
    {g : Frame ι α V} (hmod : ∀ f, (g.fill t).modify f k = g.fill (t.modify f l))
    (hrem : (g.fill t).remove k = g.fill (t.remove l)) :
    LastBranch (g.fill t) k (fs ++ [g]) b d lo' hi' := by
  refine ⟨fun f => ?_, ?_, fun h1 h2 => ?_⟩
  · obtain ⟨eq', ws, hplug, hchain⟩ := h.modify f
    exact ⟨eq', ws, by rw [hmod, plug_concat, ← hplug], hchain⟩
  · rw [hrem, plug_concat, ← h.remove]
  · obtain ⟨f, gs, rfl, hf⟩ := h.sameLevel h1 h2
    exact ⟨f, gs ++ [_], rfl, hf⟩

lemma inLo (h : LastBranch lo k fs b d lo' hi') (hturn : SearchTree.turn c k = .lo) :
    LastBranch (.node i c lo eq hi vs) k (fs ++ [.inLo i c eq hi vs]) b d lo' hi' := by
  refine h.frame (g := .inLo i c eq hi vs) (fun f => ?_) ?_
  · simp only [SearchTree.modify, hturn, Frame.fill]
  · simp only [SearchTree.remove, hturn, Frame.fill]

lemma inHi (h : LastBranch hi k fs b d lo' hi') (hturn : SearchTree.turn c k = .hi) :
    LastBranch (.node i c lo eq hi vs) k (fs ++ [.inHi i c lo eq vs]) b d lo' hi' := by
  refine h.frame (g := .inHi i c lo eq vs) (fun f => ?_) ?_
  · simp only [SearchTree.modify, hturn, Frame.fill]
  · simp only [SearchTree.remove, hturn, Frame.fill]

/-- Removing a word below its last branch leaves something. -/
lemma remove_ne_nil (h : LastBranch eq k fs b d lo' hi') : eq.remove k ≠ .nil := by
  rw [h.remove]
  cases fs with
  | nil =>
      intro hnil
      obtain ⟨h1, h2⟩ := (SearchTree.hang_eq_nil_iff _ _).mp hnil
      obtain ⟨f, gs, hf, _⟩ := h.sameLevel h2 h1
      cases hf
  | cons f fs => exact plug_cons_ne_nil f fs _

lemma inEq (h : LastBranch eq k.tail fs b d lo' hi') (hturn : SearchTree.turn c k = .eq) :
    LastBranch (.node i c lo eq hi vs) k (fs ++ [.inEq i c lo hi vs]) b d lo' hi' := by
  refine h.frame (g := .inEq i c lo hi vs) (fun f => ?_) ?_
  · simp only [SearchTree.modify, hturn, Frame.fill]
  · simp only [SearchTree.remove, hturn, Frame.fill]
    cases hrem : eq.remove k.tail with
    | nil => exact absurd hrem h.remove_ne_nil
    | node => rfl

/-- A chain in the level of its parent is a last branch there. -/
lemma of_chain (hchain : (SearchTree.node b d lo' eq hi' ws).EqOnly)
    (hfind : (SearchTree.node b d lo' eq hi' ws).find k = some us) {g : Frame ι α V}
    (hlevel : g.SameLevel)
    (hmod : ∀ f, (g.fill (.node b d lo' eq hi' ws)).modify f k
      = g.fill ((SearchTree.node b d lo' eq hi' ws).modify f k))
    (hrem : (g.fill (.node b d lo' eq hi' ws)).remove k
      = g.fill ((SearchTree.node b d lo' eq hi' ws).remove k)) :
    LastBranch (g.fill (.node b d lo' eq hi' ws)) k [g] b d .nil .nil := by
  refine ⟨fun f => ?_, ?_, fun _ _ => ⟨g, [], rfl, hlevel⟩⟩
  · obtain ⟨eq'', ws', hnode, hchain'⟩ := hchain.modify_node f k
    exact ⟨eq'', ws', by rw [hmod, hnode, plug_cons, plug_nil], hchain'⟩
  · rw [hrem, hchain.remove_eq_nil hfind]
    rfl

lemma of_chain_lo (hchain : (SearchTree.node b d lo' eq hi' ws).EqOnly)
    (hfind : (SearchTree.node b d lo' eq hi' ws).find k = some us)
    (hturn : SearchTree.turn c k = .lo) :
    LastBranch (.node i c (.node b d lo' eq hi' ws) eq' hi vs) k [.inLo i c eq' hi vs] b d
      .nil .nil := by
  refine of_chain hchain hfind (g := .inLo i c eq' hi vs) trivial (fun f => ?_) ?_
  · rw [Frame.fill, SearchTree.modify]
    simp only [hturn, Frame.fill]
  · rw [Frame.fill, SearchTree.remove]
    simp only [hturn, Frame.fill]

lemma of_chain_hi (hchain : (SearchTree.node b d lo' eq hi' ws).EqOnly)
    (hfind : (SearchTree.node b d lo' eq hi' ws).find k = some us)
    (hturn : SearchTree.turn c k = .hi) :
    LastBranch (.node i c lo eq' (.node b d lo' eq hi' ws) vs) k [.inHi i c lo eq' vs] b d
      .nil .nil := by
  refine of_chain hchain hfind (g := .inHi i c lo eq' vs) trivial (fun f => ?_) ?_
  · rw [Frame.fill, SearchTree.modify]
    simp only [hturn, Frame.fill]
  · rw [Frame.fill, SearchTree.remove]
    simp only [hturn, Frame.fill]

end LastBranch

end

end TernarySearch
