import Napd.Notify.Handlers

/-!
The notify manager does what a plain list of registrations does.

* `forNames_eq`: the loop over the names of a command hands its body the tokens in front of the
  first one that is too long.
* `Refines`: the pairs of the manager are the registrations; the pairs of a name stand in the map,
  and those of a client in its list, in the order in which they were entered.
* `add_refines`, `remove_refines`, `removeEach_refines`, `simulates`: what the functions do to both.
* `notify_refines`: over every run the same is said to the same clients.
-/

namespace Napd.Notify

open Linked EqualRange Tokenizer PathBlock

/-! ### The names of a command -/

/-- The string of a token. -/
def tokenName (t : Token) : Text := stringOf t.text

/-- The tokens that are short enough, up to the first that is not. -/
def shortNames (ts : List Token) : List Text :=
  (ts.takeWhile fun t => t.text.length < COMPNAME_MAXBUF).map tokenName

lemma shortNames_cons (t : Token) (ts : List Token) :
    shortNames (t :: ts)
      = if t.text.length < COMPNAME_MAXBUF then tokenName t :: shortNames ts else [] := by
  rw [shortNames, List.takeWhile_cons]
  by_cases h : t.text.length < COMPNAME_MAXBUF
  · rw [if_pos (decide_eq_true h), if_pos h]
    rfl
  · rw [if_neg (by simpa using h), if_neg h]
    rfl

lemma nameAt_eq {m : List U8} {t : Token} (h : Stands m t) : nameAt m t.start = tokenName t := by
  refine Subtype.ext ?_
  show cstring (m.drop t.start) = cstring t.text
  rw [h.cstring_eq, ← cstring_append_zero, cstring_append h.2]

section Loop

variable {σ : Type} (body : σ → Text → Option (σ × List Told))

/-- The loop hands its body the short names, one after another. -/
lemma nameLoop_eq {s : List U8} (hs : 0 ∉ s) {n : ℕ} {ts : List Token} {m : List U8}
    {src : Option ℕ} (h : Before s ts m src) (hn : ts.length < n) (st : σ) :
    nameLoop body n m src st = Transducer.exec body st (shortNames ts) := by
  induction ts generalizing n m src st with
  | nil =>
      obtain ⟨n, rfl⟩ := Nat.exists_eq_succ_of_ne_zero (Nat.ne_of_gt hn)
      obtain ⟨g, hg, hvalue⟩ := getNextString_nil h COMPNAME_MAXBUF
      rw [nameLoop, hg, Option.bind_some, hvalue]
      rfl
  | cons t ts ih =>
      obtain ⟨n, rfl⟩ := Nat.exists_eq_succ_of_ne_zero (Nat.ne_of_gt (Nat.zero_lt_of_lt hn))
      obtain ⟨g, hg, hvalue, hbefore, hsafe, -⟩ := getNextString_cons hs h COMPNAME_MAXBUF
      rw [nameLoop, hg, Option.bind_some, hvalue, shortNames_cons]
      split_ifs with hshort
      · have hrest : ∀ st, nameLoop body n g.mem g.src st
            = Transducer.exec body st (shortNames ts) := ih hbefore (Nat.lt_of_succ_lt_succ hn)
        simp only [hrest, nameAt_eq hsafe.1, Transducer.exec]
      · rfl

end Loop

lemma exec_collect (l xs : List Text) :
    Transducer.exec (fun (l : List Text) s => some (l ++ [s], ([] : List Told))) l xs
      = some (l ++ xs, []) := by
  induction xs generalizing l with
  | nil => rw [List.append_nil]; rfl
  | cons x xs ih => rw [Transducer.exec, Option.bind_some, ih, List.append_assoc]; rfl

/-- **The names of a command** are its tokens in front of the first that is too long, and the loop
hands them to its body. -/
lemma names_eq (data : Text) :
    (∃ ts, Reads ts (data.val ++ [0]) (some 0) ∧ names data = shortNames ts) ∧
      ∀ {σ : Type} (body : σ → Text → Option (σ × List Told)) (s : σ),
        forNames body data s = Transducer.exec body s (names data) := by
  obtain ⟨ts, hts⟩ := exists_reads data.property (cursor_start data.val)
  have hlen := reads_length data.property (cursor_start data.val) hts
  have hloop : ∀ {σ : Type} (body : σ → Text → Option (σ × List Told)) (s : σ),
      forNames body data s = Transducer.exec body s (shortNames ts) := fun body s =>
    nameLoop_eq body data.property ⟨cursor_start data.val, hts⟩ (by omega) s
  have hnames : names data = shortNames ts := by
    rw [names, hloop, exec_collect]
    rfl
  exact ⟨⟨ts, hts, hnames⟩, fun body s => hnames ▸ hloop body s⟩

lemma forNames_eq {σ : Type} (body : σ → Text → Option (σ × List Told)) (data : Text) (s : σ) :
    forNames body data s = Transducer.exec body s (names data) := (names_eq data).2 body s

/-! ### The pairs and the registrations -/

/-- The text of a key. -/
def textOf (strings : Store Text) (k : ℕ) : Text :=
  (strings.cell k).getD ⟨[], zero_notMem_nil⟩

/-- The registration of a pair. -/
def entry (strings : Store Text) (p : ℕ × ℕ) : Text × ℕ := (textOf strings p.1, p.2)

/-- `R` are the pairs of the manager, in the order in which they were entered. -/
structure Registered (m : NotifyManager) (R : List (ℕ × ℕ)) : Prop where
  consistent : Consistent m
  inOrder : InOrder m
  names : ∀ x, m.map.filter (fun p => decide (foldOf m.strings p = x))
    = R.filter fun p => decide (foldOf m.strings p = x)
  lists : ∀ c, m.notifies c = ((R.filter fun p => p.2 = c).map Prod.fst).reverse

/-- The pairs of the manager are the registrations. -/
def Refines (m : NotifyManager) (L : Registrations) : Prop :=
  ∃ R, Registered m R ∧ L = R.map (entry m.strings)

lemma textOf_eq {strings : Store Text} {k : ℕ} {s : Text} (h : strings.cell k = some s) :
    textOf strings k = s := by
  rw [textOf, h]
  rfl

lemma new_refines : Refines NotifyManager.new [] :=
  ⟨[], ⟨new_consistent, new_inOrder, fun _ => rfl, fun _ => rfl⟩, rfl⟩

namespace Registered

variable {m : NotifyManager} {R : List (ℕ × ℕ)} (h : Registered m R)
include h

lemma mem_iff (p : ℕ × ℕ) : p ∈ R ↔ p ∈ m.map := by
  have hfilter : p ∈ m.map.filter (fun q => decide (foldOf m.strings q = foldOf m.strings p))
      ↔ p ∈ R.filter fun q => decide (foldOf m.strings q = foldOf m.strings p) := by
    rw [h.names]
  rw [List.mem_filter, List.mem_filter, and_iff_left (decide_eq_true rfl),
    and_iff_left (decide_eq_true rfl)] at hfilter
  exact hfilter.symm

/-- A pair is for a name if its key stands there in the map. -/
lemma isFor_iff {p : ℕ × ℕ} (hp : p ∈ m.map) (s : Text) :
    isFor s (entry m.strings p) = true ↔ foldOf m.strings p = fold s := by
  obtain ⟨t, ht⟩ := Option.ne_none_iff_exists'.mp (h.consistent.live_key p hp)
  rw [isFor, entry, decide_eq_true_iff, textOf_eq ht, foldOf_eq (c := p.2) ht, fold_eq_iff]

/-- The pair for a name and of a client, where the name has a key. -/
lemma isPair_iff {k c : ℕ} {s t : Text} (hk : m.strings.cell k = some t)
    (hlower : lower t = lower s)
    {p : ℕ × ℕ} (hp : p ∈ m.map) : isPair s c (entry m.strings p) = true ↔ p = (k, c) := by
  rw [isPair, Bool.and_eq_true, h.isFor_iff hp,
    h.consistent.foldOf_eq_iff hk (fold_eq_iff.mpr hlower) hp, decide_eq_true_iff, Prod.ext_iff]
  rfl

/-- Nobody asked for a name that no key has. -/
lemma isFor_none {s : Text} (hnone : ∀ k t, m.strings.cell k = some t → lower t ≠ lower s)
    {p : ℕ × ℕ} (hp : p ∈ m.map) : isFor s (entry m.strings p) = false := by
  obtain ⟨t, ht⟩ := Option.ne_none_iff_exists'.mp (h.consistent.live_key p hp)
  rw [isFor, entry, decide_eq_false_iff_not, textOf_eq ht]
  exact hnone p.1 t ht

end Registered

/-- The registrations are the same in every store in which the keys have the same texts. -/
lemma map_entry_congr {strings strings' : Store Text} {R : List (ℕ × ℕ)}
    (h : ∀ p ∈ R, strings'.cell p.1 = strings.cell p.1) :
    R.map (entry strings') = R.map (entry strings) :=
  List.map_congr_left fun p hp => by rw [entry, entry, textOf, textOf, h p hp]

lemma foldOf_congr {strings strings' : Store Text} {p : ℕ × ℕ}
    (h : strings'.cell p.1 = strings.cell p.1) : foldOf strings' p = foldOf strings p := by
  rw [foldOf, foldOf, h]

/-! ### One name -/

/-- **`add` registers.** -/
lemma add_refines {m : NotifyManager} {L : Registrations} (h : Refines m L) (s : Text) (c : ℕ) :
    ∃ m', m.add s c = some ((L.register s c).1, m') ∧ Refines m' (L.register s c).2 := by
  obtain ⟨R, hR, rfl⟩ := h
  have hcons := hR.consistent
  rcases hcons.add_cases hR.inOrder s c with ⟨k, t, hmem, hk, hlower, hadd⟩ |
      ⟨k, t, m', hent, hadd, hcons', hsorted'⟩
  · have hany : (R.map (entry m.strings)).any (isPair s c) = true := by
      refine List.any_eq_true.mpr ⟨_, List.mem_map_of_mem ((hR.mem_iff (k, c)).mpr hmem), ?_⟩
      exact (hR.isPair_iff hk hlower hmem).mpr rfl
    rw [Registrations.register, if_pos hany]
    exact ⟨m, hadd, R, hR, rfl⟩
  · have hkept : ∀ p ∈ R, m'.strings.cell p.1 = m.strings.cell p.1 := fun p hp =>
      hent.kept p ((hR.mem_iff p).mp hp)
    have hinmap : ∀ p ∈ R, p ∈ m'.map := by
      intro p hp
      rw [hent.map, (insertUpper_perm _ _).mem_iff]
      exact List.mem_cons_of_mem _ ((hR.mem_iff p).mp hp)
    -- among the registrations, those for the name have the key
    have hkey : ∀ p ∈ R, isFor s (entry m.strings p) = true → p.1 = k := by
      intro p hp hfor
      rw [hR.isFor_iff ((hR.mem_iff p).mp hp), ← foldOf_congr (hkept p hp)] at hfor
      exact (hcons'.foldOf_eq_iff hent.cell (fold_eq_iff.mpr hent.lower_eq) (hinmap p hp)).mp hfor
    have hany : ¬ (R.map (entry m.strings)).any (isPair s c) = true := by
      intro hany
      obtain ⟨e, he, hpair⟩ := List.any_eq_true.mp hany
      obtain ⟨p, hp, rfl⟩ := List.mem_map.mp he
      rw [isPair, Bool.and_eq_true, decide_eq_true_iff] at hpair
      have heq : p = (k, c) := Prod.ext (hkey p hp hpair.1) hpair.2
      exact hent.fresh (heq ▸ (hR.mem_iff p).mp hp)
    have hspelling : Registrations.spelling (R.map (entry m.strings)) s = t := by
      rw [Registrations.spelling]
      cases hfind : (R.map (entry m.strings)).find? (isFor s) with
      | none =>
          rcases hent.spelling with ⟨rfl, -⟩ | ⟨d, hd⟩
          · rfl
          · have hd' := (hR.mem_iff (k, d)).mpr hd
            have hnot := List.find?_eq_none.mp hfind _ (List.mem_map_of_mem hd')
            refine absurd ((hR.isFor_iff hd s).mpr ?_) hnot
            rw [← foldOf_congr (hkept _ hd'), foldOf_eq hent.cell]
            exact fold_eq_iff.mpr hent.lower_eq
      | some e =>
          obtain ⟨p, hp, rfl⟩ := List.mem_map.mp (List.mem_of_find?_eq_some hfind)
          have hpk := hkey p hp (List.find?_some hfind)
          rw [Option.map_some, Option.getD_some]
          show textOf m.strings p.1 = t
          rw [← textOf_eq hent.cell, textOf, textOf, ← hkept p hp, hpk]
    rw [Registrations.register, if_neg hany]
    refine ⟨m', hadd, R ++ [(k, c)], ⟨hcons', hsorted', fun x => ?_, fun d => ?_⟩, ?_⟩
    · have hsorted : SortedBy (foldOf m'.strings) m.map :=
        sorted_of_sublist (List.Sublist.refl _)
          (fun p hp => foldOf_congr (hent.kept p hp)) hR.inOrder
      calc m'.map.filter (fun p => decide (foldOf m'.strings p = x))
          = m.map.filter (fun p => decide (foldOf m'.strings p = x))
              ++ if foldOf m'.strings (k, c) = x then [(k, c)] else [] := by
            rw [hent.map]
            convert filter_insertUpper hsorted (k, c) x
        _ = m.map.filter (fun p => decide (foldOf m.strings p = x))
              ++ if foldOf m'.strings (k, c) = x then [(k, c)] else [] := by
            rw [List.filter_congr fun p hp => by rw [foldOf_congr (hent.kept p hp)]]
        _ = R.filter (fun p => decide (foldOf m'.strings p = x))
              ++ if foldOf m'.strings (k, c) = x then [(k, c)] else [] := by
            rw [hR.names, List.filter_congr fun p hp => by rw [← foldOf_congr (hkept p hp)]]
        _ = (R ++ [(k, c)]).filter (fun p => decide (foldOf m'.strings p = x)) := by
            rw [List.filter_append, List.filter_singleton]
            by_cases hx : foldOf m'.strings (k, c) = x <;> simp [hx]
    · rw [hent.notifies, List.filter_append, List.map_append, List.reverse_append]
      by_cases hd : d = c
      · rw [hd, Function.update_self, hR.lists]
        simp
      · rw [Function.update_of_ne hd, hR.lists]
        simp [Ne.symm hd]
    · rw [List.map_append, hspelling, ← map_entry_congr hkept, List.map_singleton, entry,
        textOf_eq hent.cell]

/-- **`remove` takes a registration back.** -/
lemma remove_refines {m : NotifyManager} {L : Registrations} (h : Refines m L) (s : Text) (c : ℕ) :
    ∃ b m', m.remove s c = some (b, m') ∧ Refines m' (L.unregister s c) ∧
      ∀ k t, m.strings.cell k = some t → lower t = lower s →
        m'.notifies c = (m.notifies c).erase k := by
  obtain ⟨R, hR, rfl⟩ := h
  have hcons := hR.consistent
  rcases hcons.remove_spec hR.inOrder s c with ⟨hnone, hremove⟩ |
      ⟨k, t, b, m', hk, hlower, hremove, hcons', hsorted', hnotifies, hmap, hcell⟩
  · refine ⟨false, m, hremove, ⟨R, hR, ?_⟩, fun k t hk hlower => absurd hlower (hnone k t hk)⟩
    refine List.filter_eq_self.mpr fun e he => ?_
    obtain ⟨p, hp, rfl⟩ := List.mem_map.mp he
    rw [isPair, hR.isFor_none hnone ((hR.mem_iff p).mp hp)]
    rfl
  · have hleft : ∀ p ∈ R.filter (fun p => p ≠ (k, c)),
        m'.strings.cell p.1 = m.strings.cell p.1 := by
      intro p hp
      refine hcell p ?_
      rw [hmap, List.mem_filter, ← hR.mem_iff]
      exact List.mem_filter.mp hp
    have hfold : ∀ p ∈ R.filter (fun p => p ≠ (k, c)), foldOf m'.strings p = foldOf m.strings p :=
      fun p hp => foldOf_congr (hleft p hp)
    have hnotifies' : m'.notifies c = (m.notifies c).erase k := by
      rw [hnotifies, Function.update_self]
    refine ⟨b, m', hremove, ⟨R.filter fun p => p ≠ (k, c), ⟨hcons', hsorted', fun x => ?_,
      fun d => ?_⟩, ?_⟩, fun k' t' hk' hlower' => ?_⟩
    · have hmapfold : ∀ p ∈ m.map.filter (fun p => p ≠ (k, c)),
          foldOf m'.strings p = foldOf m.strings p := by
        intro p hp
        obtain ⟨hp, hne⟩ := List.mem_filter.mp hp
        exact hfold p (List.mem_filter.mpr ⟨(hR.mem_iff p).mpr hp, hne⟩)
      calc m'.map.filter (fun p => decide (foldOf m'.strings p = x))
          = (m.map.filter fun p => p ≠ (k, c)).filter
              (fun p => decide (foldOf m.strings p = x)) := by
            rw [hmap, List.filter_congr fun p hp => by rw [hmapfold p hp]]
        _ = (m.map.filter fun p => decide (foldOf m.strings p = x)).filter
              (fun p => p ≠ (k, c)) := List.filter_comm _ _ _
        _ = (R.filter fun p => p ≠ (k, c)).filter
              (fun p => decide (foldOf m.strings p = x)) := by
            rw [hR.names, List.filter_comm]
        _ = (R.filter fun p => p ≠ (k, c)).filter
              (fun p => decide (foldOf m'.strings p = x)) :=
            List.filter_congr fun p hp => by rw [hfold p hp]
    · by_cases hd : d = c
      · have herase : (m.notifies c).erase k = (m.notifies c).filter fun a => a != k :=
          (hcons.once_list c).erase_eq_filter k
        rw [hd, hnotifies', herase, hR.lists, List.filter_reverse, List.filter_map,
          List.filter_filter, List.filter_filter]
        refine congrArg List.reverse (congrArg (List.map _) (List.filter_congr fun p _ => ?_))
        rw [Bool.eq_iff_iff, Function.comp_apply, Bool.and_eq_true, Bool.and_eq_true, bne_iff_ne,
          decide_eq_true_iff, decide_eq_true_iff, ne_eq, ne_eq, Prod.ext_iff]
        exact ⟨fun hp => ⟨hp.2, fun heq => hp.1 heq.1⟩,
          fun hp => ⟨fun heq => hp.2 ⟨heq, hp.1⟩, hp.1⟩⟩
      · rw [hnotifies, Function.update_of_ne hd, hR.lists, List.filter_filter]
        refine congrArg List.reverse (congrArg (List.map _) (List.filter_congr fun p _ => ?_))
        rw [Bool.eq_iff_iff, Bool.and_eq_true, decide_eq_true_iff, decide_eq_true_iff]
        exact ⟨fun hp => ⟨hp, fun heq => hd (hp.symm.trans (congrArg Prod.snd heq))⟩, And.left⟩
    · rw [map_entry_congr hleft, Registrations.unregister, List.filter_map]
      refine congrArg (List.map _) (List.filter_congr fun p hp => ?_)
      have hpair := hR.isPair_iff (c := c) hk hlower ((hR.mem_iff p).mp hp)
      rw [Function.comp_apply, Bool.eq_iff_iff, Bool.not_eq_true', ← Bool.not_eq_true, hpair,
        decide_eq_true_iff]
    · rw [hnotifies', hcons.shared k' k t' t hk' hk (hlower'.trans hlower.symm)]

/-- **`ClearNotifies` takes back all registrations of its caller.** -/
lemma removeEach_refines {m : NotifyManager} {L : Registrations} (h : Refines m L) {c : ℕ}
    {ks : List ℕ} (hks : m.notifies c = ks) :
    ∃ m', NotifyManager.removeEach c m ks = some m' ∧ Refines m' (L.filter fun e => e.2 ≠ c) := by
  induction ks generalizing m L with
  | nil =>
      refine ⟨m, rfl, ?_⟩
      obtain ⟨R, hR, rfl⟩ := h
      rw [List.filter_eq_self.mpr fun e he => ?_]
      · exact ⟨R, hR, rfl⟩
      · obtain ⟨⟨k, d⟩, hp, rfl⟩ := List.mem_map.mp he
        rw [decide_eq_true_iff]
        intro hd
        have hmem := (hR.consistent.listed k d).mp ((hR.mem_iff _).mp hp)
        have hd : d = c := hd
        rw [hd, hks] at hmem
        exact List.not_mem_nil hmem
  | cons k ks ih =>
      have hcons : Consistent m := by
        obtain ⟨R, hR, -⟩ := h
        exact hR.consistent
      have hk : (k, c) ∈ m.map := by
        rw [hcons.listed, hks]
        exact List.mem_cons_self
      obtain ⟨s, hs⟩ := Option.ne_none_iff_exists'.mp (hcons.live_key _ hk)
      obtain ⟨b, m₁, hremove, h₁, hnotifies⟩ := remove_refines h s c
      have htail : m₁.notifies c = ks := by
        rw [hnotifies k s hs rfl, hks, List.erase_cons_head]
      obtain ⟨m', heach, h'⟩ := ih h₁ htail
      have hfilter : (L.unregister s c).filter (fun e => decide (e.2 ≠ c))
          = L.filter fun e => e.2 ≠ c := by
        rw [Registrations.unregister, List.filter_filter]
        refine List.filter_congr fun e _ => ?_
        rw [Bool.eq_iff_iff]
        simp only [isPair, Bool.and_eq_true, Bool.not_eq_true', Bool.and_eq_false_iff,
          decide_eq_true_iff, decide_eq_false_iff_not]
        exact ⟨And.left, fun hne => ⟨hne, Or.inr hne⟩⟩
      rw [hfilter] at h'
      refine ⟨m', ?_, h'⟩
      rw [NotifyManager.removeEach, Store.read_some, hs]
      simp only [Option.bind_eq_bind, Option.bind_some]
      rw [hremove, Option.bind_some, heach]

/-! ### What is told -/

/-- The names in the list of a client. -/
lemma namesOf_eq {m : NotifyManager} {L : Registrations} (h : Refines m L) (c : ℕ) :
    (m.notifies c).mapM (fun k => m.strings.read (some k)) = some (L.namesOf c) := by
  obtain ⟨R, hR, rfl⟩ := h
  have hread : ∀ p ∈ R, m.strings.read (some p.1) = some (textOf m.strings p.1) := by
    intro p hp
    obtain ⟨t, ht⟩ := Option.ne_none_iff_exists'.mp
      (hR.consistent.live_key p ((hR.mem_iff p).mp hp))
    rw [Store.read_some, textOf_eq ht, ht]
  refine mapM_of_map ?_
  rw [hR.lists, Registrations.namesOf, List.filter_map, List.map_map, List.map_reverse,
    List.map_reverse, List.map_map, List.map_map]
  refine congrArg List.reverse (List.map_congr_left fun p hp => ?_)
  exact hread p (List.mem_of_mem_filter hp)

lemma notifies_length {m : NotifyManager} {L : Registrations} (h : Refines m L) (c : ℕ) :
    (m.notifies c).length = (L.namesOf c).length := by
  obtain ⟨R, hR, rfl⟩ := h
  rw [hR.lists, Registrations.namesOf, List.filter_map, List.length_reverse, List.length_map,
    List.length_reverse, List.length_map, List.length_map]
  rfl

/-- **`notify` tells the clients that asked**, in the order in which they did. -/
lemma notify_eq {m : NotifyManager} {L : Registrations} (h : Refines m L) (client : User)
    (status : Status) :
    m.notify client status
      = some ((L.clientsOf client.name).map fun c => (c, sayStatus client status)) := by
  obtain ⟨R, hR, rfl⟩ := h
  have hrange : (m.map.take (upperBound (foldOf m.strings) m.map (fold client.name))).drop
        (lowerBound (foldOf m.strings) m.map (fold client.name))
      = R.filter (isFor client.name ∘ entry m.strings) := by
    calc (m.map.take (upperBound (foldOf m.strings) m.map (fold client.name))).drop
          (lowerBound (foldOf m.strings) m.map (fold client.name))
        = m.map.filter (fun p => decide (foldOf m.strings p = fold client.name)) := by
          rw [take_upperBound_drop hR.inOrder]
          exact List.filter_congr fun p _ => decide_eq_decide.mpr Iff.rfl
      _ = R.filter (fun p => decide (foldOf m.strings p = fold client.name)) := hR.names _
      _ = R.filter (isFor client.name ∘ entry m.strings) := by
          refine List.filter_congr fun p hp => ?_
          rw [Bool.eq_iff_iff, decide_eq_true_iff, Function.comp_apply,
            hR.isFor_iff ((hR.mem_iff p).mp hp)]
  rw [NotifyManager.notify, NotifyManager.equal_range_eq hR.consistent.live_key, Option.map_some,
    hrange, Registrations.clientsOf, List.filter_map, List.map_map, List.map_map]
  rfl

/-! ### Runs -/

/-- What the body of `AddNotify` and `CheckOnline` does. -/
lemma addName_simulates (say : Text → Bool → List Told) (c : ℕ) :
    Transducer.Simulates (respondName say c) (NotifyManager.addName say c) Refines := by
  intro m L s h
  obtain ⟨m', hadd, h'⟩ := add_refines h s c
  exact ⟨m', by rw [NotifyManager.addName, hadd]; rfl, h'⟩

/-- What the body of `RemoveNotify` does. -/
lemma removeName_simulates (c : ℕ) :
    Transducer.Simulates (fun (L : Registrations) s => (L.unregister s c, []))
      (NotifyManager.removeName c) Refines := by
  intro m L s h
  obtain ⟨b, m', hremove, h', -⟩ := remove_refines h s c
  exact ⟨m', by rw [NotifyManager.removeName, hremove]; rfl, h'⟩

lemma run_unregister (c : ℕ) (L : Registrations) (xs : List Text) :
    Transducer.run (fun (L : Registrations) s => (L.unregister s c, ([] : List Told))) L xs
      = (xs.foldl (fun L s => L.unregister s c) L, []) := by
  induction xs generalizing L with
  | nil => rfl
  | cons x xs ih => rw [Transducer.run, ih]; rfl

/-- **Each call** does to the manager what it does to the registrations, and says the same. -/
lemma simulates : Transducer.Simulates respond handle Refines := by
  intro m L e h
  cases e with
  | addNotify get_user c data =>
      obtain ⟨m', hexec, h'⟩ := (addName_simulates (sayAdded get_user c) c).exec h (names data)
      exact ⟨m', (forNames_eq _ data m).trans hexec, h'⟩
  | checkOnline get_user c data =>
      obtain ⟨m', hexec, h'⟩ := (addName_simulates (sayChecked get_user c) c).exec h (names data)
      exact ⟨m', (forNames_eq _ data m).trans hexec, h'⟩
  | removeNotify c data =>
      obtain ⟨m', hexec, h'⟩ := (removeName_simulates c).exec h (names data)
      rw [run_unregister] at hexec h'
      exact ⟨m', (forNames_eq _ data m).trans hexec, h'⟩
  | listNotifies c =>
      refine ⟨m, ?_, h⟩
      rw [handle, NotifyManager.ListNotifies, namesOf_eq h c, notifies_length h c]
      rfl
  | clearNotifies c =>
      obtain ⟨m', heach, h'⟩ := removeEach_refines h (rfl : m.notifies c = _)
      refine ⟨m', ?_, h'⟩
      rw [handle, NotifyManager.ClearNotifies, heach, notifies_length h c]
      rfl
  | notify client status =>
      exact ⟨m, by rw [handle, notify_eq h]; rfl, h⟩

/-- **The manager refines the registrations.** Over every run of the handlers and of `notify`, with
any data in the commands and whoever is online: no freed key is read, and the same is said to the
same clients, in the same order, as on the plain list of who asked for whom. -/
theorem notify_refines (es : List Event) :
    ∃ m, Transducer.exec handle NotifyManager.new es = some (m, (Transducer.run respond [] es).2) ∧
      Refines m (Transducer.run respond [] es).1 := simulates.exec new_refines es

/-! ### Who is told -/

/-- Whether a client asks for a name behind a call, if it did or did not in front of it. -/
def asks (s : Text) (c : ℕ) (b : Bool) : Event → Bool
  | .addNotify _ c' data => b || (c' = c && (names data).any fun n => lower n = lower s)
  | .checkOnline _ c' data => b || (c' = c && (names data).any fun n => lower n = lower s)
  | .removeNotify c' data => b && !(c' = c && (names data).any fun n => lower n = lower s)
  | .listNotifies _ => b
  | .clearNotifies c' => b && !(c' = c)
  | .notify _ _ => b

namespace Registrations

variable {L : Registrations}

lemma lower_spelling (L : Registrations) (s : Text) : lower (L.spelling s) = lower s := by
  rw [spelling]
  cases h : L.find? (isFor s) with
  | none => rfl
  | some e =>
      have hfor : isFor s e = true := List.find?_some h
      exact of_decide_eq_true hfor

lemma isPair_eq_true {s : Text} {c : ℕ} {e : Text × ℕ} :
    isPair s c e = true ↔ lower e.1 = lower s ∧ e.2 = c := by
  rw [isPair, isFor, Bool.and_eq_true, decide_eq_true_iff, decide_eq_true_iff]

lemma any_register (n s : Text) (c c' : ℕ) :
    (L.register n c').2.any (isPair s c)
      = (L.any (isPair s c) || (c' = c && lower n = lower s)) := by
  rw [register]
  split_ifs with hany
  · -- it is registered already
    cases hsame : decide (c' = c) && decide (lower n = lower s) with
    | false => rw [Bool.or_false]
    | true =>
        rw [Bool.and_eq_true, decide_eq_true_iff, decide_eq_true_iff] at hsame
        have hpair : isPair n c' = isPair s c := by
          funext e
          rw [isPair, isPair, isFor, isFor, hsame.1, hsame.2]
        rw [Bool.or_true, ← hpair]
        exact hany
  · rw [List.any_append, List.any_cons, List.any_nil, Bool.or_false, isPair, isFor, lower_spelling,
      Bool.and_comm]

lemma any_unregister (n s : Text) (c c' : ℕ) :
    (L.unregister n c').any (isPair s c)
      = (L.any (isPair s c) && !(c' = c && lower n = lower s)) := by
  rw [unregister, List.any_filter, Bool.eq_iff_iff, List.any_eq_true, Bool.and_eq_true,
    List.any_eq_true, Bool.not_eq_true', Bool.and_eq_false_iff, decide_eq_false_iff_not,
    decide_eq_false_iff_not]
  constructor
  · rintro ⟨e, he, hboth⟩
    obtain ⟨hnot, hpair⟩ := Bool.and_eq_true_iff.mp hboth
    refine ⟨⟨e, he, hpair⟩, ?_⟩
    rw [isPair_eq_true] at hpair
    rw [Bool.not_eq_true', ← Bool.not_eq_true, isPair_eq_true] at hnot
    by_contra hsame
    rw [not_or, not_not, not_not] at hsame
    exact hnot ⟨hpair.1.trans hsame.2.symm, hpair.2.trans hsame.1.symm⟩
  · rintro ⟨⟨e, he, hpair⟩, hnot⟩
    refine ⟨e, he, Bool.and_eq_true_iff.mpr ⟨?_, hpair⟩⟩
    rw [isPair_eq_true] at hpair
    rw [Bool.not_eq_true', ← Bool.not_eq_true, isPair_eq_true]
    rintro ⟨hn, hc⟩
    exact hnot.elim (fun h => h (hc.symm.trans hpair.2)) fun h => h (hn.symm.trans hpair.1)

lemma any_registerAll (say : Text → Bool → List Told) (s : Text) (c c' : ℕ) (L : Registrations)
    (xs : List Text) :
    (Transducer.run (respondName say c') L xs).1.any (isPair s c)
      = (L.any (isPair s c) || (c' = c && xs.any fun n => lower n = lower s)) := by
  induction xs generalizing L with
  | nil => rw [List.any_nil, Bool.and_false, Bool.or_false]; rfl
  | cons n xs ih =>
      rw [Transducer.run, ih, respondName, any_register, List.any_cons, Bool.or_assoc,
        ← Bool.and_or_distrib_left]

lemma any_unregisterAll (s : Text) (c c' : ℕ) (L : Registrations) (xs : List Text) :
    (xs.foldl (fun L n => unregister L n c') L).any (isPair s c)
      = (L.any (isPair s c) && !(c' = c && xs.any fun n => lower n = lower s)) := by
  induction xs generalizing L with
  | nil => rw [List.any_nil, Bool.and_false, Bool.not_false, Bool.and_true]; rfl
  | cons n xs ih =>
      rw [List.foldl_cons, ih, any_unregister, List.any_cons, Bool.and_assoc, ← Bool.not_or,
        ← Bool.and_or_distrib_left]

/-- **What a call does** to the registration of one client for one name. -/
lemma any_respond (s : Text) (c : ℕ) (e : Event) :
    (respond L e).1.any (isPair s c) = asks s c (L.any (isPair s c)) e := by
  cases e with
  | addNotify get_user c' data => exact any_registerAll _ s c c' L (names data)
  | checkOnline get_user c' data => exact any_registerAll _ s c c' L (names data)
  | removeNotify c' data => exact any_unregisterAll s c c' L (names data)
  | listNotifies c' => rfl
  | notify client status => rfl
  | clearNotifies c' =>
      show (L.filter fun e => e.2 ≠ c').any (isPair s c) = _
      rw [asks, List.any_filter, Bool.eq_iff_iff, List.any_eq_true, Bool.and_eq_true,
        List.any_eq_true, Bool.not_eq_true', decide_eq_false_iff_not]
      constructor
      · rintro ⟨e, he, hboth⟩
        obtain ⟨hne, hpair⟩ := Bool.and_eq_true_iff.mp hboth
        rw [decide_eq_true_iff] at hne
        refine ⟨⟨e, he, hpair⟩, fun heq => hne ?_⟩
        exact (isPair_eq_true.mp hpair).2.trans heq.symm
      · rintro ⟨⟨e, he, hpair⟩, hne⟩
        refine ⟨e, he, Bool.and_eq_true_iff.mpr ⟨decide_eq_true fun heq => hne ?_, hpair⟩⟩
        exact heq.symm.trans (isPair_eq_true.mp hpair).2

lemma any_run (s : Text) (c : ℕ) (L : Registrations) (es : List Event) :
    (Transducer.run respond L es).1.any (isPair s c)
      = es.foldl (asks s c) (L.any (isPair s c)) := by
  induction es generalizing L with
  | nil => rfl
  | cons e es ih => rw [Transducer.run, ih, any_respond, List.foldl_cons]

/-- No client is registered twice for a name. -/
def Once (L : Registrations) : Prop :=
  L.Pairwise fun e e' => ¬(lower e.1 = lower e'.1 ∧ e.2 = e'.2)

lemma Once.register (h : Once L) (s : Text) (c : ℕ) : Once (L.register s c).2 := by
  rw [Registrations.register]
  split_ifs with hany
  · exact h
  · refine List.pairwise_append.mpr ⟨h, List.pairwise_singleton _ _, fun e he e' he' heq => hany ?_⟩
    rw [List.mem_singleton.mp he', lower_spelling] at heq
    exact List.any_eq_true.mpr ⟨e, he, isPair_eq_true.mpr heq⟩

lemma Once.registerAll (h : Once L) (say : Text → Bool → List Told) (c : ℕ) (xs : List Text) :
    Once (Transducer.run (respondName say c) L xs).1 :=
  Transducer.run_keeps (I := Once) (fun _ s hL => hL.register s c) h xs

lemma Once.unregisterAll (h : Once L) (c : ℕ) (xs : List Text) :
    Once (xs.foldl (fun L s => unregister L s c) L) := by
  induction xs generalizing L with
  | nil => exact h
  | cons x xs ih => exact ih (h.sublist List.filter_sublist)

lemma Once.respond (h : Once L) (e : Event) : Once (respond L e).1 := by
  cases e with
  | addNotify get_user c data => exact h.registerAll _ c (names data)
  | checkOnline get_user c data => exact h.registerAll _ c (names data)
  | removeNotify c data => exact h.unregisterAll c (names data)
  | listNotifies c => exact h
  | clearNotifies c => exact h.sublist List.filter_sublist
  | notify client status => exact h

/-- The clients that asked for a name, each of them once. -/
lemma Once.clientsOf (h : Once L) (s : Text) :
    (L.clientsOf s).Nodup ∧ ∀ c, c ∈ L.clientsOf s ↔ L.any (isPair s c) = true := by
  constructor
  · refine List.pairwise_map.mpr (List.Pairwise.imp_of_mem ?_ (h.sublist List.filter_sublist))
    intro e e' he he' hne heq
    have hfor : lower e.1 = lower s := of_decide_eq_true (List.mem_filter.mp he).2
    have hfor' : lower e'.1 = lower s := of_decide_eq_true (List.mem_filter.mp he').2
    exact hne ⟨hfor.trans hfor'.symm, heq⟩
  · intro c
    rw [Registrations.clientsOf, List.mem_map, List.any_eq_true]
    constructor
    · rintro ⟨e, he, rfl⟩
      obtain ⟨he, hfor⟩ := List.mem_filter.mp he
      exact ⟨e, he, Bool.and_eq_true_iff.mpr ⟨hfor, decide_eq_true rfl⟩⟩
    · rintro ⟨e, he, hpair⟩
      obtain ⟨hfor, hc⟩ := Bool.and_eq_true_iff.mp hpair
      exact ⟨e, List.mem_filter.mpr ⟨he, hfor⟩, of_decide_eq_true hc⟩

end Registrations

/-- **Who is told.** After any run of the handlers, a user whose status changes is told to each
client once whose last call that concerned it, case aside, asked for it, and to nobody else. -/
theorem told_iff (es : List Event) (client : User) (status : Status) :
    ∃ m said told, Transducer.exec handle NotifyManager.new es = some (m, said) ∧
      m.notify client status = some told ∧ (told.map Prod.fst).Nodup ∧
      ∀ c, c ∈ told.map Prod.fst ↔ es.foldl (asks client.name c) false = true := by
  obtain ⟨m, hexec, href⟩ := simulates.exec new_refines es
  have honce : Registrations.Once (Transducer.run respond [] es).1 :=
    Transducer.run_keeps (I := Registrations.Once) (fun _ e hL => hL.respond e) List.Pairwise.nil es
  obtain ⟨hnodup, hmem⟩ := honce.clientsOf client.name
  refine ⟨m, _, _, hexec, notify_eq href client status, ?_, fun c => ?_⟩
  · rw [List.map_map]
    exact (List.map_id _).symm ▸ hnodup
  · rw [List.map_map]
    have hany := Registrations.any_run client.name c [] es
    rw [List.any_nil] at hany
    rw [← hany, ← hmem]
    exact iff_of_eq (congrArg (c ∈ ·) (List.map_id _))

end Napd.Notify
