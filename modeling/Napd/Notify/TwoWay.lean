import Napd.Library.EqualRange
import Napd.Notify.Model

/-!
The multimap of the notifies and the lists of the clients tell the same.

* `Consistent`: a pair is in the map if its key is in the list of the client, once on each
  side; equal names share a key; the keys that are allocated are those of the pairs.
* `add_spec`, `remove_spec`: what the calls do to a consistent manager.
* `ClearNotifies_spec`: the call leaves no pair of the caller.
* `notifies_consistent`: **any sequence of calls runs without an access to a freed key and keeps
  both sides consistent**; a key is freed when its last pair is removed.
-/

namespace Napd

namespace Notify

open Linked EqualRange

/-! ### The searches -/

/-- The text of the key of a pair, as the map orders it. -/
def foldOf (strings : Store Text) (p : ℕ × ℕ) : List ℕ := ((strings.cell p.1).map fold).getD []

lemma foldOf_eq {strings : Store Text} {k c : ℕ} {s : Text} (h : strings.cell k = some s) :
    foldOf strings (k, c) = fold s := by
  rw [foldOf, h]
  rfl

lemma not_ltistr_iff_le {s t : Text} : (!ltistr s t) = true ↔ fold t ≤ fold s := by
  rw [Bool.not_eq_true', ← Bool.not_eq_true, ltistr_iff, not_lt]

lemma foldOf_of_lower {strings : Store Text} {p : ℕ × ℕ} {s : Text}
    (h : (strings.cell p.1).map lower = some (lower s)) : foldOf strings p = fold s := by
  obtain ⟨t, ht, heq⟩ := Option.map_eq_some_iff.mp h
  rw [foldOf, ht, Option.map_some, Option.getD_some]
  exact fold_eq_iff.mpr heq

/-- The bounds that the map searches by comparing texts are those of the order. -/
lemma lower_bound_eq {l : List Text} {ps : List (ℕ × ℕ)} {f : ℕ × ℕ → List ℕ}
    (h : l.map fold = ps.map f) (s : Text) : lower_bound l s = lowerBound f ps (fold s) := by
  rw [← lowerBound_congr h]
  refine congrArg (fun P => (l.takeWhile P).length) (funext fun t => ?_)
  exact Bool.eq_iff_iff.mpr (ltistr_iff.trans (@decide_eq_true_iff _ (_)).symm)

lemma upper_bound_eq {l : List Text} {ps : List (ℕ × ℕ)} {f : ℕ × ℕ → List ℕ}
    (h : l.map fold = ps.map f) (s : Text) : upper_bound l s = upperBound f ps (fold s) := by
  rw [← upperBound_congr h]
  refine congrArg (fun P => (l.takeWhile P).length) (funext fun t => ?_)
  exact Bool.eq_iff_iff.mpr (not_ltistr_iff_le.trans (@decide_eq_true_iff _ (_)).symm)

namespace NotifyManager

variable {m : NotifyManager}

/-- The keys can be read as long as none of them is freed. -/
lemma keys_eq (h : ∀ p ∈ m.map, m.strings.Live p.1) :
    ∃ l, m.keys = some l ∧ l.map fold = m.map.map (foldOf m.strings) := by
  rw [keys]
  generalize m.map = ps at h
  induction ps with
  | nil => exact ⟨[], rfl, rfl⟩
  | cons p ps ih =>
      obtain ⟨l, hl, hmap⟩ := ih fun q hq => h q (List.mem_cons_of_mem _ hq)
      obtain ⟨s, hs⟩ := Option.ne_none_iff_exists'.mp (h p List.mem_cons_self)
      have hfold : fold s = foldOf m.strings p := (foldOf_eq (c := p.2) hs).symm
      refine ⟨s :: l, ?_, ?_⟩
      · rw [List.mapM_cons, Store.read_some, hs, hl]
        rfl
      · rw [List.map_cons, List.map_cons, hmap, hfold]

lemma equal_range_eq (h : ∀ p ∈ m.map, m.strings.Live p.1) (s : Text) :
    m.equal_range s = some (lowerBound (foldOf m.strings) m.map (fold s),
      upperBound (foldOf m.strings) m.map (fold s)) := by
  obtain ⟨l, hl, hmap⟩ := keys_eq h
  rw [equal_range, hl, Option.map_some, lower_bound_eq hmap, upper_bound_eq hmap]

lemma insert_eq (h : ∀ p ∈ m.map, m.strings.Live p.1) {k c : ℕ} {s : Text}
    (hk : m.strings.cell k = some s) :
    m.insert k c = some { m with map := insertUpper (foldOf m.strings) (k, c) m.map } := by
  obtain ⟨l, hl, hmap⟩ := keys_eq h
  rw [insert, Store.read_some, hk, hl]
  simp only [Option.bind_eq_bind, Option.bind_some]
  rw [upper_bound_eq hmap, insertUpper, foldOf_eq hk]

lemma find_eq (h : ∀ p ∈ m.map, m.strings.Live p.1) (hsorted : SortedBy (foldOf m.strings) m.map)
    (s : Text) :
    ∃ r, m.find s = some r ∧ (r = none ↔ ∀ p ∈ m.map, foldOf m.strings p ≠ fold s) := by
  obtain ⟨l, hl, hmap⟩ := keys_eq h
  rw [find, hl, Option.map_some]
  refine ⟨_, rfl, ?_⟩
  rw [lower_bound_eq hmap]
  have hget : (l[lowerBound (foldOf m.strings) m.map (fold s)]?).map fold
      = (m.map[lowerBound (foldOf m.strings) m.map (fold s)]?).map (foldOf m.strings) := by
    rw [← List.getElem?_map, hmap, List.getElem?_map]
  by_cases hall : ∀ p ∈ m.map, foldOf m.strings p ≠ fold s
  · rw [iff_true_right hall]
    cases ht : l[lowerBound (foldOf m.strings) m.map (fold s)]? with
    | none => rfl
    | some t =>
        rw [ht, Option.map_some, eq_comm, Option.map_eq_some_iff] at hget
        obtain ⟨p, hp, hpt⟩ := hget
        have hdrop : p ∈ m.map.drop (lowerBound (foldOf m.strings) m.map (fold s)) :=
          List.mem_iff_getElem?.mpr ⟨0, by rw [List.getElem?_drop, Nat.add_zero, hp]⟩
        rw [drop_lowerBound hsorted, List.mem_filter, decide_eq_true_iff] at hdrop
        have hlt : fold s < fold t := by
          rw [← hpt]
          exact lt_of_le_of_ne hdrop.2 (hall p hdrop.1).symm
        exact if_pos (ltistr_iff.mpr hlt)
  · rw [iff_false_right hall]
    have hne := mt (lowerBound_eq_upperBound_iff hsorted (fold s)).mp hall
    obtain ⟨p, -, hps, hp⟩ := exists_getElem?_lowerBound hsorted hne
    rw [hp, Option.map_some, hps, Option.map_eq_some_iff] at hget
    obtain ⟨t, ht, hts⟩ := hget
    have hlt : ¬ltistr s t = true := by
      rw [ltistr_iff, hts]
      exact lt_irrefl _
    rw [ht]
    exact fun h => Option.some_ne_none _ ((if_neg hlt).symm.trans h)

lemma eraseClient_eq (requester : ℕ) (l : List (ℕ × ℕ)) :
    eraseClient requester l
      = (l.filter fun e => !decide (e.2 = requester),
        l.countP fun e => decide (e.2 = requester)) := by
  induction l with
  | nil => rfl
  | cons e l ih =>
      rw [eraseClient, ih]
      by_cases he : e.2 = requester <;> simp [he]

end NotifyManager

/-! ### Consistent managers -/

/-- The map and the lists of the clients tell the same, and the keys that are allocated are the
keys of the pairs. -/
structure Consistent (m : NotifyManager) : Prop where
  listed : ∀ k c, (k, c) ∈ m.map ↔ k ∈ m.notifies c
  once_map : m.map.Nodup
  once_list : ∀ c, (m.notifies c).Nodup
  live : ∀ k, m.strings.Live k ↔ ∃ c, (k, c) ∈ m.map
  shared : ∀ k k' s s', m.strings.cell k = some s → m.strings.cell k' = some s' →
    lower s = lower s' → k = k'

/-- The pairs are in the order of their keys. -/
def InOrder (m : NotifyManager) : Prop := SortedBy (foldOf m.strings) m.map

/-- Fewer pairs, whose keys keep their texts, are in order if all were. -/
lemma sorted_of_sublist {strings strings' : Store Text} {ps ps' : List (ℕ × ℕ)}
    (hsub : ps'.Sublist ps) (hfold : ∀ p ∈ ps', foldOf strings' p = foldOf strings p)
    (h : SortedBy (foldOf strings) ps) : SortedBy (foldOf strings') ps' := by
  have hsorted : SortedBy (foldOf strings) ps' := List.Pairwise.sublist hsub h
  refine List.Pairwise.imp_of_mem (fun {p q} hp hq hpq => ?_) hsorted
  rw [hfold p hp, hfold q hq]
  exact hpq

/-- A pair is entered for a name: its key is a new one with this name, or one that another client
has entered. -/
structure Entered (m : NotifyManager) (name : Text) (c k : ℕ) (s : Text) (m' : NotifyManager) :
    Prop where
  fresh : (k, c) ∉ m.map
  cell : m'.strings.cell k = some s
  lower_eq : lower s = lower name
  kept : ∀ p ∈ m.map, m'.strings.cell p.1 = m.strings.cell p.1
  map : m'.map = insertUpper (foldOf m'.strings) (k, c) m.map
  notifies : m'.notifies = Function.update m.notifies c (k :: m.notifies c)
  spelling : (s = name ∧ ∀ p ∈ m.map, (m.strings.cell p.1).map lower ≠ some (lower name)) ∨
    ∃ d, (k, d) ∈ m.map

lemma new_consistent : Consistent NotifyManager.new := by
  constructor <;> simp [NotifyManager.new, Store.empty, Store.Live]

lemma new_inOrder : InOrder NotifyManager.new := List.Pairwise.nil

namespace Consistent

variable {m : NotifyManager} (h : Consistent m)
include h

lemma live_key : ∀ p ∈ m.map, m.strings.Live p.1 :=
  fun p hp => (h.live p.1).mpr ⟨p.2, hp⟩

/-- The pairs with the name of a key are the pairs with that key. -/
lemma foldOf_eq_iff {k : ℕ} {s t : Text} (hk : m.strings.cell k = some s)
    (hst : fold s = fold t) {p : ℕ × ℕ} (hp : p ∈ m.map) :
    foldOf m.strings p = fold t ↔ p.1 = k := by
  obtain ⟨s', hs'⟩ := Option.ne_none_iff_exists'.mp (h.live_key p hp)
  rw [foldOf_eq (c := p.2) hs', ← hst]
  constructor
  · intro heq
    exact h.shared p.1 k s' s hs' hk (fold_eq_iff.mp heq)
  · intro heq
    rw [heq, hk] at hs'
    rw [Option.some.inj hs']

/-- A name has no pair, or it has a key that the first pair of its range tells. -/
lemma range_cases (hsorted : InOrder m) (s : Text) :
    (∀ p ∈ m.map, foldOf m.strings p ≠ fold s) ∨
      ∃ k t, m.strings.cell k = some t ∧ fold t = fold s ∧ (∃ c, (k, c) ∈ m.map) ∧
        (m.map[lowerBound (foldOf m.strings) m.map (fold s)]?).map Prod.fst = some k := by
  by_cases hall : ∀ p ∈ m.map, foldOf m.strings p ≠ fold s
  · exact Or.inl hall
  · have hne := mt (lowerBound_eq_upperBound_iff hsorted (fold s)).mp hall
    obtain ⟨⟨k, c⟩, hp, hps, hget⟩ := exists_getElem?_lowerBound hsorted hne
    obtain ⟨t, ht⟩ := Option.ne_none_iff_exists'.mp (h.live_key _ hp)
    rw [foldOf_eq ht] at hps
    exact Or.inr ⟨k, t, ht, hps, ⟨c, hp⟩, by rw [hget]; rfl⟩

/-- A pair that is entered on both sides keeps them consistent, if its key is allocated. -/
lemma enter {strings : Store Text} {k c : ℕ} {map : List (ℕ × ℕ)}
    (hlive : ∀ a, strings.Live a ↔ m.strings.Live a ∨ a = k)
    (hshared : ∀ a b s t, strings.cell a = some s → strings.cell b = some t →
      lower s = lower t → a = b)
    (hnew : (k, c) ∉ m.map) (hperm : map.Perm ((k, c) :: m.map)) :
    Consistent ⟨strings, map, Function.update m.notifies c (k :: m.notifies c)⟩ := by
  have hmem : ∀ p, p ∈ map ↔ p = (k, c) ∨ p ∈ m.map := by
    intro p
    rw [hperm.mem_iff, List.mem_cons]
  refine ⟨?_, ?_, ?_, ?_, hshared⟩
  · intro a d
    change (a, d) ∈ map ↔ a ∈ Function.update m.notifies c (k :: m.notifies c) d
    rw [hmem, h.listed, Prod.mk.injEq]
    by_cases hd : d = c
    · rw [hd, Function.update_self, List.mem_cons, and_iff_left rfl]
    · rw [Function.update_of_ne hd, or_iff_right fun e => hd e.2]
  · rw [hperm.nodup_iff]
    exact List.nodup_cons.mpr ⟨hnew, h.once_map⟩
  · intro d
    by_cases hd : d = c
    · rw [hd]
      simp only [Function.update_self]
      exact List.nodup_cons.mpr ⟨fun hk => hnew ((h.listed k c).mpr hk), h.once_list c⟩
    · simp only [Function.update_of_ne hd]
      exact h.once_list d
  · intro a
    rw [hlive, h.live]
    constructor
    · rintro (⟨d, hd⟩ | rfl)
      · exact ⟨d, (hmem _).mpr (Or.inr hd)⟩
      · exact ⟨c, (hmem _).mpr (Or.inl rfl)⟩
    · rintro ⟨d, hd⟩
      rcases (hmem _).mp hd with heq | hd
      · exact Or.inr (congrArg Prod.fst heq)
      · exact Or.inl ⟨d, hd⟩

/-- A key for a name that no pair has is different from all others. -/
lemma alloc_shared {name : Text} (hnone : ∀ p ∈ m.map, foldOf m.strings p ≠ fold name) :
    ∀ a b s t, (m.strings.alloc name).cell a = some s → (m.strings.alloc name).cell b = some t →
      lower s = lower t → a = b := by
  have hold : ∀ a s, m.strings.cell a = some s → lower s ≠ lower name := by
    intro a s ha heq
    obtain ⟨c, hc⟩ := (h.live a).mp (Store.live_of_cell ha)
    exact hnone (a, c) hc ((foldOf_eq ha).trans (fold_eq_iff.mpr heq))
  intro a b s t ha hb hst
  simp only [Store.alloc, Function.update_apply] at ha hb
  split_ifs at ha hb with ha' hb' hb'
  · rw [ha', hb']
  · exact absurd (hst.symm.trans (congrArg lower (Option.some.inj ha)).symm) (hold b t hb)
  · exact absurd (hst.trans (congrArg lower (Option.some.inj hb)).symm) (hold a s ha)
  · exact h.shared a b s t ha hb hst

lemma foldOf_alloc (name : Text) {p : ℕ × ℕ} (hp : p ∈ m.map) :
    foldOf (m.strings.alloc name) p = foldOf m.strings p := by
  have hne := Store.ne_next (h.live_key p hp)
  simp only [foldOf, Store.alloc, Function.update_of_ne hne]

/-- The pairs of a name, found from one of its keys. -/
lemma mem_name_range_iff (hsorted : InOrder m) {k : ℕ} {s t : Text} (hk : m.strings.cell k = some s)
    (hst : fold s = fold t) (p : ℕ × ℕ) :
    p ∈ (m.map.take (upperBound (foldOf m.strings) m.map (fold t))).drop
        (lowerBound (foldOf m.strings) m.map (fold t)) ↔ p ∈ m.map ∧ p.1 = k := by
  rw [mem_range_iff hsorted]
  exact and_congr_right fun hp => h.foldOf_eq_iff hk hst hp

omit h in
lemma bounds_ne (hsorted : InOrder m) {k d : ℕ} {s t : Text} (hk : m.strings.cell k = some s)
    (hst : fold s = fold t) (hd : (k, d) ∈ m.map) :
    lowerBound (foldOf m.strings) m.map (fold t)
      ≠ upperBound (foldOf m.strings) m.map (fold t) :=
  fun heq => (lowerBound_eq_upperBound_iff hsorted (fold t)).mp heq (k, d) hd
    ((foldOf_eq hk).trans hst)

/-- `add` finds the pair of the requester, or enters it on both sides. -/
lemma add_cases (hsorted : InOrder m) (notifier : Text) (requester : ℕ) :
    (∃ k s, (k, requester) ∈ m.map ∧ m.strings.cell k = some s ∧ lower s = lower notifier ∧
        m.add notifier requester = some (false, m)) ∨
      ∃ k s m', Entered m notifier requester k s m' ∧ m.add notifier requester = some (true, m') ∧
        Consistent m' ∧ InOrder m' := by
  have hrange := NotifyManager.equal_range_eq h.live_key notifier
  rcases h.range_cases hsorted notifier with hnone | ⟨k, t, hk, ht, ⟨d, hd⟩, hget⟩
  · have hempty := (lowerBound_eq_upperBound_iff hsorted (fold notifier)).mpr hnone
    have hlive : ∀ p ∈ m.map, (m.strings.alloc notifier).Live p.1 :=
      fun p hp => (Store.live_alloc _ _ _).mpr (Or.inl (h.live_key p hp))
    have hcell : (m.strings.alloc notifier).cell m.strings.next = some notifier :=
      Function.update_self ..
    have hinsert := NotifyManager.insert_eq
      (m := { m with strings := m.strings.alloc notifier }) (c := requester) hlive hcell
    have hsorted' : SortedBy (foldOf (m.strings.alloc notifier)) m.map :=
      sorted_of_sublist (List.Sublist.refl _) (fun p hp => h.foldOf_alloc notifier hp) hsorted
    have hnew : (m.strings.next, requester) ∉ m.map :=
      fun hmem => Store.ne_next (h.live_key _ hmem) rfl
    refine Or.inr ⟨_, notifier, _, ⟨hnew, hcell, rfl, fun p hp => ?_, rfl, rfl, ?_⟩, ?_,
      h.enter (Store.live_alloc _ _) (h.alloc_shared hnone) hnew (insertUpper_perm _ _),
      hsorted'.insertUpper (m.strings.next, requester)⟩
    · exact Function.update_of_ne (Store.ne_next (h.live_key p hp)) _ _
    · exact Or.inl ⟨rfl, fun p hp heq => hnone p hp (foldOf_of_lower heq)⟩
    rw [NotifyManager.add, hrange]
    simp only [Option.bind_eq_bind, Option.bind_some]
    rw [if_pos hempty, hinsert]
    rfl
  · have hne := bounds_ne hsorted hk ht hd
    have hany : (((m.map.take (upperBound (foldOf m.strings) m.map (fold notifier))).drop
        (lowerBound (foldOf m.strings) m.map (fold notifier))).any
          fun e => decide (e.2 = requester)) = true ↔ (k, requester) ∈ m.map := by
      simp only [List.any_eq_true, h.mem_name_range_iff hsorted hk ht, decide_eq_true_iff]
      constructor
      · rintro ⟨⟨a, c⟩, ⟨hmem, rfl⟩, rfl⟩
        exact hmem
      · intro hmem
        exact ⟨(k, requester), ⟨hmem, rfl⟩, rfl⟩
    rw [NotifyManager.add, hrange]
    simp only [Option.bind_eq_bind, Option.bind_some]
    rw [if_neg hne, hget, Option.bind_some]
    by_cases hmem : (k, requester) ∈ m.map
    · rw [if_pos (hany.mpr hmem)]
      exact Or.inl ⟨k, t, hmem, hk, fold_eq_iff.mp ht, rfl⟩
    · rw [if_neg (mt hany.mp hmem), NotifyManager.insert_eq h.live_key hk]
      have hlive : ∀ a, m.strings.Live a ↔ m.strings.Live a ∨ a = k := by
        intro a
        refine ⟨Or.inl, fun ha => ha.elim id fun e => ?_⟩
        rw [e]
        exact (h.live k).mpr ⟨d, hd⟩
      refine Or.inr ⟨k, t, ⟨m.strings, insertUpper (foldOf m.strings) (k, requester) m.map,
        Function.update m.notifies requester (k :: m.notifies requester)⟩, ?_, rfl,
        h.enter hlive h.shared hmem (insertUpper_perm _ _),
        SortedBy.insertUpper hsorted (k, requester)⟩
      exact ⟨hmem, hk, fold_eq_iff.mp ht, fun _ _ => rfl, rfl, rfl, Or.inr ⟨d, hd⟩⟩

/-- `add` returns and keeps both sides consistent. -/
lemma add_spec (hsorted : InOrder m) (notifier : Text) (requester : ℕ) :
    ∃ b m', m.add notifier requester = some (b, m') ∧ Consistent m' ∧ InOrder m' := by
  rcases h.add_cases hsorted notifier requester with ⟨-, -, -, -, -, hadd⟩ |
      ⟨-, -, m', -, hadd, h', hsorted'⟩
  · exact ⟨false, m, hadd, h, hsorted⟩
  · exact ⟨true, m', hadd, h', hsorted'⟩

/-- A pair that leaves both sides keeps them consistent, if its key is freed with its last
pair. -/
lemma leave {strings : Store Text} {k c : ℕ}
    (hlive : ∀ a, strings.Live a ↔
      m.strings.Live a ∧ (a = k → ∃ d, (k, d) ∈ m.map.filter fun p => p ≠ (k, c)))
    (hcell : ∀ a s, strings.cell a = some s → m.strings.cell a = some s) :
    Consistent ⟨strings, m.map.filter fun p => p ≠ (k, c),
      Function.update m.notifies c ((m.notifies c).erase k)⟩ := by
  have hmem : ∀ p, (p ∈ m.map.filter fun p => p ≠ (k, c)) ↔ p ∈ m.map ∧ p ≠ (k, c) := by
    intro p
    rw [List.mem_filter, decide_eq_true_iff]
  refine ⟨?_, h.once_map.filter _, ?_, ?_,
    fun a b s t ha hb => h.shared a b s t (hcell a s ha) (hcell b t hb)⟩
  · intro a d
    change (a, d) ∈ m.map.filter (fun p => p ≠ (k, c))
      ↔ a ∈ Function.update m.notifies c ((m.notifies c).erase k) d
    rw [hmem, h.listed, ne_eq, Prod.mk.injEq]
    by_cases hd : d = c
    · rw [hd, Function.update_self, (h.once_list c).mem_erase_iff, and_iff_left rfl,
        and_comm, ne_eq]
    · rw [Function.update_of_ne hd, and_iff_left fun e => hd e.2]
  · intro d
    change (Function.update m.notifies c ((m.notifies c).erase k) d).Nodup
    by_cases hd : d = c
    · rw [hd, Function.update_self]
      exact (h.once_list c).erase k
    · rw [Function.update_of_ne hd]
      exact h.once_list d
  · intro a
    rw [hlive, h.live]
    constructor
    · rintro ⟨⟨d, hd⟩, hlast⟩
      by_cases ha : a = k
      · rw [ha]
        exact hlast ha
      · exact ⟨d, (hmem _).mpr ⟨hd, fun e => ha (congrArg Prod.fst e)⟩⟩
    · rintro ⟨d, hd⟩
      exact ⟨⟨d, ((hmem _).mp hd).1⟩, fun ha => ⟨d, ha ▸ hd⟩⟩

/-- What the loop of `remove` does to a consistent manager. -/
lemma removePairs_eq (hsorted : InOrder m) {k c : ℕ} {s t : Text} (hk : m.strings.cell k = some s)
    (hst : fold s = fold t) :
    ∃ n, (n ≠ 0 ↔ (k, c) ∈ m.map) ∧
      m.removePairs (lowerBound (foldOf m.strings) m.map (fold t),
          upperBound (foldOf m.strings) m.map (fold t)) k c
        = (n, ⟨m.strings, m.map.filter fun p => p ≠ (k, c),
            Function.update m.notifies c ((m.notifies c).erase k)⟩) := by
  have hmap : m.map.take (lowerBound (foldOf m.strings) m.map (fold t))
        ++ ((m.map.take (upperBound (foldOf m.strings) m.map (fold t))).drop
          (lowerBound (foldOf m.strings) m.map (fold t))).filter (fun e => !decide (e.2 = c))
        ++ m.map.drop (upperBound (foldOf m.strings) m.map (fold t))
      = m.map.filter fun p => p ≠ (k, c) := by
    rw [filter_range hsorted]
    refine List.filter_congr fun p hp => ?_
    rw [Bool.eq_iff_iff]
    simp [h.foldOf_eq_iff hk hst hp, Prod.ext_iff, imp_iff_not_or]
  have hfound : ((m.map.take (upperBound (foldOf m.strings) m.map (fold t))).drop
      (lowerBound (foldOf m.strings) m.map (fold t))).countP (fun e => decide (e.2 = c)) ≠ 0
        ↔ (k, c) ∈ m.map := by
    rw [← Nat.pos_iff_ne_zero, List.countP_pos_iff]
    simp only [h.mem_name_range_iff hsorted hk hst, decide_eq_true_iff]
    constructor
    · rintro ⟨⟨a, d⟩, ⟨hmem, rfl⟩, rfl⟩
      exact hmem
    · intro hmem
      exact ⟨(k, c), ⟨hmem, rfl⟩, rfl⟩
  refine ⟨_, hfound, ?_⟩
  rw [NotifyManager.removePairs, NotifyManager.eraseClient_eq]
  simp only [hmap]
  split_ifs with hzero
  · -- the key is not in the list of a client that has no pair
    have hnot : k ∉ m.notifies c :=
      fun hin => hfound.mpr ((h.listed k c).mpr hin) hzero
    rw [List.erase_of_not_mem hnot, Function.update_eq_self]
  · rfl

/-- The key of a pair that is erased is freed if that was its last pair. -/
lemma freeUnused_spec {k c : ℕ} (hsorted : InOrder m) {s : Text} (hk : m.strings.cell k = some s)
    (notifies : ℕ → List ℕ) :
    ∃ m', NotifyManager.freeUnused ⟨m.strings, m.map.filter fun p => p ≠ (k, c), notifies⟩ k
        = some m' ∧
      m'.map = (m.map.filter fun p => p ≠ (k, c)) ∧ m'.notifies = notifies ∧
      (∀ a, m'.strings.Live a ↔
        m.strings.Live a ∧ (a = k → ∃ d, (k, d) ∈ m.map.filter fun p => p ≠ (k, c))) ∧
      ∀ a t, m'.strings.cell a = some t → m.strings.cell a = some t := by
  have hlive : ∀ p ∈ m.map.filter (fun p => p ≠ (k, c)), m.strings.Live p.1 :=
    fun p hp => h.live_key p (List.mem_filter.mp hp).1
  have hsorted' : SortedBy (foldOf m.strings) (m.map.filter fun p => p ≠ (k, c)) :=
    List.Pairwise.sublist List.filter_sublist hsorted
  obtain ⟨i, hi, hlast⟩ := NotifyManager.find_eq
    (m := ⟨m.strings, m.map.filter fun p => p ≠ (k, c), notifies⟩) hlive hsorted' s
  have hlast : i = none ↔ ∀ d, (k, d) ∉ m.map.filter fun p => p ≠ (k, c) := by
    rw [hlast]
    constructor
    · exact fun hall d hd => hall (k, d) hd (foldOf_eq hk)
    · rintro hall ⟨a, d⟩ hp heq
      rw [h.foldOf_eq_iff hk rfl (List.mem_filter.mp hp).1] at heq
      exact hall d (heq ▸ hp)
  have hread : m.strings.read (some k) = some s := hk
  rw [NotifyManager.freeUnused, hread]
  simp only [Option.bind_eq_bind, Option.bind_some]
  rw [hi, Option.bind_some]
  split_ifs with hnone
  · have hgone := hlast.mp hnone
    obtain ⟨strings, hfree, hdead, hsame⟩ := Store.exists_free (Store.live_of_cell hk)
    refine ⟨_, by rw [hfree]; rfl, rfl, rfl, fun a => ?_, fun a t ha => ?_⟩
    · rw [Store.live_freed hdead hsame]
      refine and_congr_right fun _ => ⟨fun hak e => absurd e hak, fun hstill e => ?_⟩
      obtain ⟨d, hd⟩ := hstill e
      exact hgone d hd
    · have hak : a ≠ k := fun e => Option.some_ne_none t (ha.symm.trans (e ▸ hdead))
      rw [← hsame a hak, ha]
  · refine ⟨_, rfl, rfl, rfl, fun a => ?_, fun _ _ ha => ha⟩
    rw [hlast] at hnone
    push Not at hnone
    rw [and_iff_left fun _ => hnone]

/-- `remove` finds no key for the name, or takes the pair of the requester from both sides. -/
lemma remove_spec (hsorted : InOrder m) (notifier : Text) (requester : ℕ) :
    ((∀ k s, m.strings.cell k = some s → lower s ≠ lower notifier) ∧
        m.remove notifier requester = some (false, m)) ∨
      ∃ k s b m', m.strings.cell k = some s ∧ lower s = lower notifier ∧
        m.remove notifier requester = some (b, m') ∧ Consistent m' ∧ InOrder m' ∧
        m'.notifies = Function.update m.notifies requester ((m.notifies requester).erase k) ∧
        m'.map = (m.map.filter fun p => p ≠ (k, requester)) ∧
        ∀ p ∈ m'.map, m'.strings.cell p.1 = m.strings.cell p.1 := by
  have hrange := NotifyManager.equal_range_eq h.live_key notifier
  rcases h.range_cases hsorted notifier with hnone | ⟨k, s, hk, hs, ⟨d, hd⟩, hget⟩
  · refine Or.inl ⟨fun k s hk heq => ?_, ?_⟩
    · obtain ⟨c, hc⟩ := (h.live k).mp (Store.live_of_cell hk)
      exact hnone (k, c) hc ((foldOf_eq hk).trans (fold_eq_iff.mpr heq))
    · have hempty := (lowerBound_eq_upperBound_iff hsorted (fold notifier)).mpr hnone
      rw [NotifyManager.remove, hrange]
      simp only [Option.bind_eq_bind, Option.bind_some]
      exact if_pos hempty
  · have hne := bounds_ne hsorted hk hs hd
    obtain ⟨n, -, hpairs⟩ := h.removePairs_eq (c := requester) hsorted hk hs
    obtain ⟨m', hfree, hmap, hnotifies, hlive, hold⟩ :=
      h.freeUnused_spec (c := requester) hsorted hk
        (Function.update m.notifies requester ((m.notifies requester).erase k))
    have hleave : Consistent m' := by
      have hleave := h.leave hlive hold
      rwa [← hmap, ← hnotifies] at hleave
    have hcell : ∀ p ∈ m'.map, m'.strings.cell p.1 = m.strings.cell p.1 := by
      intro p hp
      obtain ⟨t, ht⟩ := Option.ne_none_iff_exists'.mp (hleave.live_key p hp)
      rw [ht, hold p.1 t ht]
    have hfold : ∀ p ∈ m'.map, foldOf m'.strings p = foldOf m.strings p := by
      intro p hp
      rw [foldOf, foldOf, hcell p hp]
    have hsub : m'.map.Sublist m.map := by
      rw [hmap]
      exact List.filter_sublist
    refine Or.inr ⟨k, s, decide (n ≠ 0), m', hk, fold_eq_iff.mp hs, ?_, hleave,
      sorted_of_sublist hsub hfold hsorted, hnotifies, hmap, hcell⟩
    rw [NotifyManager.remove, hrange]
    simp only [Option.bind_eq_bind, Option.bind_some]
    rw [if_neg hne, hget, Option.bind_some, hpairs, hfree]
    rfl

end Consistent

/-! ### Runs -/

/-- The loop of `ClearNotifies` empties the list of the caller, pair by pair. -/
lemma removeEach_spec {m : NotifyManager} (h : Consistent m) (hsorted : InOrder m) {caller : ℕ}
    {ks : List ℕ} (hks : m.notifies caller = ks) :
    ∃ m', NotifyManager.removeEach caller m ks = some m' ∧ Consistent m' ∧ InOrder m' ∧
      m'.notifies caller = [] := by
  induction ks generalizing m with
  | nil => exact ⟨m, rfl, h, hsorted, hks⟩
  | cons k ks ih =>
      have hk : (k, caller) ∈ m.map := by
        rw [h.listed, hks]
        exact List.mem_cons_self
      obtain ⟨s, hs⟩ := Option.ne_none_iff_exists'.mp (h.live_key _ hk)
      rcases h.remove_spec hsorted s caller with ⟨hnone, -⟩ |
          ⟨k', s', b, m', hk', hs', hremove, h', hsorted', hnotifies, -⟩
      · exact absurd rfl (hnone k s hs)
      · -- the key that the name finds is the head of the list
        rw [h.shared k' k s' s hk' hs hs'] at hnotifies
        have htail : m'.notifies caller = ks := by
          rw [hnotifies, Function.update_self, hks, List.erase_cons_head]
        obtain ⟨m'', heach, h''⟩ := ih h' hsorted' htail
        refine ⟨m'', ?_, h''⟩
        rw [NotifyManager.removeEach, Store.read_some, hs]
        simp only [Option.bind_eq_bind, Option.bind_some]
        rw [hremove, Option.bind_some, heach]

/-- `ClearNotifies` returns, keeps both sides consistent and leaves no pair of the caller. -/
lemma ClearNotifies_spec {m : NotifyManager} (h : Consistent m) (hsorted : InOrder m)
    (caller : ℕ) :
    ∃ said m', m.ClearNotifies caller = some (said, m') ∧ Consistent m' ∧ InOrder m' ∧
      ∀ k, (k, caller) ∉ m'.map := by
  obtain ⟨m', heach, h', hsorted', hnil⟩ := removeEach_spec h hsorted (rfl : m.notifies caller = _)
  refine ⟨_, m', by rw [NotifyManager.ClearNotifies, heach]; rfl, h', hsorted', fun k hk => ?_⟩
  rw [h'.listed, hnil] at hk
  exact List.not_mem_nil hk

/-- Every call returns, and keeps both sides consistent. -/
lemma step_spec {m : NotifyManager} (h : Consistent m) (hsorted : InOrder m) (op : Op) :
    ∃ m', step m op = some m' ∧ Consistent m' ∧ InOrder m' := by
  cases op with
  | add notifier requester =>
      obtain ⟨b, m', hadd, h', hsorted'⟩ := h.add_spec hsorted notifier requester
      exact ⟨m', by rw [step, hadd]; rfl, h', hsorted'⟩
  | remove notifier requester =>
      rcases h.remove_spec hsorted notifier requester with ⟨-, hremove⟩ |
          ⟨-, -, b, m', -, -, hremove, h', hsorted', -⟩
      · exact ⟨m, by rw [step, hremove]; rfl, h, hsorted⟩
      · exact ⟨m', by rw [step, hremove]; rfl, h', hsorted'⟩
  | clear caller =>
      obtain ⟨said, m', hclear, h', hsorted', -⟩ := ClearNotifies_spec h hsorted caller
      exact ⟨m', by rw [step, hclear]; rfl, h', hsorted'⟩

lemma run_spec {m : NotifyManager} (h : Consistent m) (hsorted : InOrder m) (ops : List Op) :
    ∃ m', Runs.run step m ops = some m' ∧ Consistent m' ∧ InOrder m' := by
  induction ops generalizing m with
  | nil => exact ⟨m, rfl, h, hsorted⟩
  | cons op ops ih =>
      obtain ⟨m₁, hstep, h₁, hsorted₁⟩ := step_spec h hsorted op
      obtain ⟨m', hrun, h'⟩ := ih h₁ hsorted₁
      exact ⟨m', by rw [Runs.run, hstep, Option.bind_some, hrun], h'⟩

/-- **After any calls, no freed key was read, both sides tell the same, and equal names share a
key.** A further call frees the keys whose last pair it removes, and `ClearNotifies` leaves no
pair of its caller. -/
theorem notifies_consistent (ops : List Op) :
    ∃ m, Runs.run step NotifyManager.new ops = some m ∧ Consistent m ∧
      (∀ op, ∃ m', step m op = some m' ∧
        ∀ k, (m.strings.Live k ∧ ¬m'.strings.Live k) ↔
          ((∃ c, (k, c) ∈ m.map) ∧ ¬∃ c, (k, c) ∈ m'.map)) ∧
      ∀ caller, ∃ m', step m (.clear caller) = some m' ∧ ∀ k, (k, caller) ∉ m'.map := by
  obtain ⟨m, hrun, h, hsorted⟩ := run_spec new_consistent new_inOrder ops
  refine ⟨m, hrun, h, fun op => ?_, fun caller => ?_⟩
  · obtain ⟨m', hstep, h', -⟩ := step_spec h hsorted op
    refine ⟨m', hstep, fun k => ?_⟩
    rw [h.live, h'.live]
  · obtain ⟨said, m', hclear, -, -, hgone⟩ := ClearNotifies_spec h hsorted caller
    exact ⟨m', by rw [step, hclear]; rfl, hgone⟩

end Notify

end Napd
