import Napd.Ignore.Model
import Napd.Library.Journal

/-!
When the journal of an ignore list reproduces the list.

* `changes`, `changesRun`: the names that calls add to the list or take from it, in order.
* `Records`, `records_step`: a call puts its changes in front of `todo`, each of them a change
  of the set of names.
* `updateIgnores_eq_iff`: `todo` is newest first, and the consumer begins with the newest. It
  ends with the names in the list if and only if no name was changed an even number of times,
  other than none, since the last update.
-/

namespace Napd.Ignore

open Journal

/-! ### The changes of a call -/

/-- What a call adds to the list or takes from it, in order. -/
def changes (l : IgnoreList) : Op → List IgnoreDelta
  | .insert s => if l.contains s then [] else [⟨s, .ADD⟩]
  | .push_front s => if l.contains s then [] else [⟨s, .ADD⟩]
  | .push_back s => if l.contains s then [] else [⟨s, .ADD⟩]
  | .eraseAt i => (l.names[i]?).toList.map fun s => ⟨s, .REMOVE⟩
  | .eraseName s =>
      ((l.find s).bind fun i => l.names[i]?).toList.map fun s => ⟨s, .REMOVE⟩
  | .clear => l.names.map fun s => ⟨s, .REMOVE⟩

/-- What calls add to the list or take from it, in order. -/
def changesRun (l : IgnoreList) : List Op → List IgnoreDelta
  | [] => []
  | o :: os =>
      changes l o ++ match step l o with
        | some l' => changesRun l' os
        | none => []

/-- How often calls add a name to the list or take it from there, case aside. -/
def timesChanged (s : Text) (l : IgnoreList) (os : List Op) : ℕ :=
  (changesRun l os).countP fun d => strcasecmp d.ignoree s = 0

/-- An entry as a change of the set of names. -/
def toChange (d : IgnoreDelta) : Change (List U8) := ⟨lower d.ignoree, d.op = .ADD⟩

/-- No two names are equal up to case. -/
def Distinct (names : List Text) : Prop := (names.map lower).Nodup

/-- From one list to another with these changes, oldest first. -/
structure Records (l l' : IgnoreList) (ds : List IgnoreDelta) : Prop where
  todo : l'.todo = ds.reverse ++ l.todo
  distinct : Distinct l'.names
  replay : nameSet l'.names = Journal.replay (nameSet l.names) (ds.map toChange)
  real : Real (nameSet l.names) (ds.map toChange)
  noClear : ∀ d ∈ ds, d.op ≠ .CLEAR

lemma records_nil {l : IgnoreList} (h : Distinct l.names) : Records l l [] :=
  ⟨rfl, h, rfl, trivial, fun _ hd => absurd hd List.not_mem_nil⟩

lemma records_append {l l' l'' : IgnoreList} {ds es : List IgnoreDelta} (h : Records l l' ds)
    (h' : Records l' l'' es) : Records l l'' (ds ++ es) where
  todo := by rw [h'.todo, h.todo, List.reverse_append, List.append_assoc]
  distinct := h'.distinct
  replay := by rw [h'.replay, h.replay, List.map_append, replay_append]
  real := by
    rw [List.map_append, real_append]
    exact ⟨h.real, h.replay ▸ h'.real⟩
  noClear := fun d hd => (List.mem_append.mp hd).elim (h.noClear d) (h'.noClear d)

lemma mem_nameSet {names : List Text} {s : Text} :
    lower s ∈ nameSet names ↔ ∃ n ∈ names, lower n = lower s := by
  rw [nameSet, List.mem_toFinset, List.mem_map]

/-- A name that is not found is none of the names, up to case. -/
lemma notMem_of_contains {l : IgnoreList} {s : Text} (h : l.contains s = false) :
    lower s ∉ nameSet l.names := by
  rw [IgnoreList.contains, Option.isSome_eq_false_iff, Option.isNone_iff_eq_none, IgnoreList.find,
    List.findIdx?_eq_none_iff] at h
  intro hmem
  obtain ⟨n, hn, heq⟩ := mem_nameSet.mp hmem
  have hne := h n hn
  rw [decide_eq_false_iff_not] at hne
  exact hne (strcasecmp_eq_zero_iff.mpr heq)

lemma records_insertAt {l : IgnoreList} (hd : Distinct l.names) (s : Text) {i : ℕ}
    (hi : i ≤ l.names.length) :
    Records l (l.insertAt i s) (if l.contains s then [] else [⟨s, .ADD⟩]) := by
  rw [IgnoreList.insertAt]
  cases hs : l.contains s with
  | true =>
      rw [if_pos rfl, if_pos rfl]
      exact records_nil hd
  | false =>
      rw [if_neg Bool.false_ne_true, if_neg Bool.false_ne_true]
      have hnew := notMem_of_contains hs
      have hperm : (l.names.insertIdx i s).Perm (s :: l.names) := List.perm_insertIdx s l.names hi
      refine ⟨rfl, ?_, ?_, ⟨iff_of_true rfl hnew, trivial⟩, ?_⟩
      · rw [Distinct, (hperm.map lower).nodup_iff, List.map_cons, List.nodup_cons]
        exact ⟨fun h => hnew (List.mem_toFinset.mpr h), hd⟩
      · show nameSet (l.names.insertIdx i s) = Insert.insert (lower s) (nameSet l.names)
        rw [nameSet, List.toFinset_eq_of_perm _ _ (hperm.map lower), List.map_cons,
          List.toFinset_cons]
        rfl
      · intro d hmem
        rw [List.mem_singleton.mp hmem]
        exact DeltaOp.noConfusion

/-- Without the first name, the set is without it. -/
lemma nameSet_erase {s : Text} {names : List Text} (h : Distinct (s :: names)) :
    (nameSet (s :: names)).erase (lower s) = nameSet names := by
  rw [Distinct, List.map_cons, List.nodup_cons] at h
  rw [nameSet, List.map_cons, List.toFinset_cons, Finset.erase_insert]
  · rfl
  · rw [List.mem_toFinset]
    exact h.1

lemma records_eraseAt {l l' : IgnoreList} (hd : Distinct l.names) {i : ℕ}
    (h : l.eraseAt i = some l') :
    Records l l' ((l.names[i]?).toList.map fun s => ⟨s, .REMOVE⟩) := by
  obtain ⟨s, hs, rfl⟩ := Option.map_eq_some_iff.mp h
  obtain ⟨hi, rfl⟩ := List.getElem?_eq_some_iff.mp hs
  have hperm : l.names.Perm (l.names[i] :: l.names.eraseIdx i) :=
    (List.getElem_cons_eraseIdx_perm hi).symm
  have hset : nameSet l.names = nameSet (l.names[i] :: l.names.eraseIdx i) :=
    List.toFinset_eq_of_perm _ _ (hperm.map lower)
  have hcons : Distinct (l.names[i] :: l.names.eraseIdx i) := (hperm.map lower).nodup_iff.mp hd
  rw [hs]
  refine ⟨rfl, (List.nodup_cons.mp hcons).2, ?_, ⟨iff_of_false Bool.false_ne_true ?_, trivial⟩, ?_⟩
  · show nameSet (l.names.eraseIdx i) = (nameSet l.names).erase (lower l.names[i])
    rw [hset, nameSet_erase hcons]
  · rw [not_not]
    exact mem_nameSet.mpr ⟨_, List.getElem_mem hi, rfl⟩
  · intro d hmem
    rw [List.mem_singleton.mp hmem]
    exact DeltaOp.noConfusion

lemma clearLoop_eq (names : List Text) (todo : List IgnoreDelta) :
    IgnoreList.clearLoop names todo
      = (names.map fun s => ⟨s, .REMOVE⟩).reverse ++ todo := by
  induction names generalizing todo with
  | nil => rfl
  | cons s names ih =>
      rw [IgnoreList.clearLoop, ih, List.map_cons, List.reverse_cons, List.append_assoc]
      rfl

/-- Names that are taken away one after another. -/
lemma replay_clear {names : List Text} (h : Distinct names) :
    Real (nameSet names) ((names.map fun s => (⟨s, .REMOVE⟩ : IgnoreDelta)).map toChange)
      ∧ replay (nameSet names)
        ((names.map fun s => (⟨s, .REMOVE⟩ : IgnoreDelta)).map toChange) = ∅ := by
  induction names with
  | nil => exact ⟨trivial, rfl⟩
  | cons s names ih =>
      obtain ⟨hreal, hreplay⟩ := ih (List.nodup_cons.mp h).2
      have happly : (toChange ⟨s, .REMOVE⟩).apply (nameSet (s :: names)) = nameSet names :=
        nameSet_erase h
      have hmem : lower s ∈ nameSet (s :: names) :=
        mem_nameSet.mpr ⟨s, List.mem_cons_self, rfl⟩
      rw [List.map_cons, List.map_cons]
      refine ⟨⟨iff_of_false Bool.false_ne_true (not_not.mpr hmem), ?_⟩, ?_⟩
      · rw [happly]
        exact hreal
      · rw [replay, List.foldl_cons, happly]
        exact hreplay

lemma records_clear {l : IgnoreList} (hd : Distinct l.names) :
    Records l l.clear (l.names.map fun s => ⟨s, .REMOVE⟩) where
  todo := clearLoop_eq l.names l.todo
  distinct := List.nodup_nil
  replay := (replay_clear hd).2.symm
  real := (replay_clear hd).1
  noClear := by
    intro d hmem
    obtain ⟨s, -, rfl⟩ := List.mem_map.mp hmem
    exact DeltaOp.noConfusion

/-- **A call records its changes.** -/
lemma records_step {l l' : IgnoreList} (hd : Distinct l.names) {o : Op}
    (h : step l o = some l') : Records l l' (changes l o) := by
  cases o with
  | insert s => exact Option.some.inj h ▸ records_insertAt hd s le_rfl
  | push_front s => exact Option.some.inj h ▸ records_insertAt hd s (Nat.zero_le _)
  | push_back s => exact Option.some.inj h ▸ records_insertAt hd s le_rfl
  | eraseAt i => exact records_eraseAt hd h
  | eraseName s =>
      rw [step, IgnoreList.eraseName] at h
      rw [changes]
      cases hf : l.find s with
      | none =>
          rw [hf] at h
          exact Option.some.inj h ▸ records_nil hd
      | some i =>
          rw [hf] at h
          exact records_eraseAt hd h
  | clear => exact Option.some.inj h ▸ records_clear hd

/-- Calls record their changes. -/
lemma records_run {l l' : IgnoreList} (hd : Distinct l.names) {os : List Op}
    (h : Runs.run step l os = some l') : Records l l' (changesRun l os) := by
  induction os generalizing l with
  | nil => exact Option.some.inj h ▸ records_nil hd
  | cons o os ih =>
      rw [Runs.run] at h
      obtain ⟨l₁, h₁, h⟩ := Option.bind_eq_some_iff.mp h
      have hrec := records_step hd h₁
      rw [changesRun, h₁]
      exact records_append hrec (ih hrec.distinct h)

lemma distinct_call {l l' : IgnoreList} (c : Call) (hd : Distinct l.names)
    (h : call l c = some l') : Distinct l'.names := by
  cases c with
  | op o => exact (records_step hd h).distinct
  | update => exact Option.some.inj h ▸ hd

/-- In every list that calls make, no two names are equal up to case. -/
lemma distinct_run {l : IgnoreList} {cs : List Call}
    (h : Runs.run call IgnoreList.new cs = some l) : Distinct l.names := by
  have hnew : Distinct IgnoreList.new.names := List.nodup_nil
  exact Runs.run_keeps (fun _ c _ hd hs => distinct_call c hd hs) hnew h

/-! ### The consumer -/

lemma updateIgnores_eq {ds : List IgnoreDelta} (h : ∀ d ∈ ds, d.op ≠ .CLEAR)
    (held : Finset (List U8)) : updateIgnores held ds = replay held (ds.map toChange) := by
  induction ds generalizing held with
  | nil => rfl
  | cons d ds ih =>
      have hd := h d List.mem_cons_self
      have hone : consume held d = (toChange d).apply held := by
        rw [consume, toChange, Change.apply]
        cases hop : d.op with
        | ADD => rfl
        | REMOVE => rfl
        | CLEAR => exact absurd hop hd
      rw [updateIgnores, List.foldl_cons, hone, List.map_cons, replay, List.foldl_cons]
      exact ih (fun e he => h e (List.mem_cons_of_mem d he)) _

/-- A name is changed as often as its lower case is. -/
lemma times_toChange (s : Text) (ds : List IgnoreDelta) :
    times (lower s) (ds.map toChange) = ds.countP fun d => strcasecmp d.ignoree s = 0 := by
  rw [times, List.countP_map]
  refine List.countP_congr fun d _ => ?_
  rw [Function.comp_apply, decide_eq_true_iff, decide_eq_true_iff, strcasecmp_eq_zero_iff]
  exact Iff.rfl

/-- Changes of the names of a list concern names. -/
lemma forall_times_iff {p : ℕ → Prop} (hp : p 0) (ds : List IgnoreDelta) :
    (∀ a, p (times a (ds.map toChange)))
      ↔ ∀ s : Text, p (ds.countP fun d => strcasecmp d.ignoree s = 0) := by
  constructor
  · intro h s
    rw [← times_toChange]
    exact h (lower s)
  · intro h a
    by_cases ha : ∃ d ∈ ds, lower d.ignoree = a
    · obtain ⟨d, -, rfl⟩ := ha
      rw [times_toChange]
      exact h d.ignoree
    · have hz : times a (ds.map toChange) = 0 := by
        rw [times, List.countP_map, List.countP_eq_zero]
        intro d hd heq
        rw [Function.comp_apply, decide_eq_true_iff] at heq
        exact ha ⟨d, hd, heq⟩
      rw [hz]
      exact hp

/-- **The journal reproduces the list if and only if** no name was changed an even number of
times since the last update, other than none. -/
theorem updateIgnores_eq_iff (before : List Call) (since : List Op) (l l' : IgnoreList)
    (hbefore : Runs.run call IgnoreList.new before = some l)
    (hsince : Runs.run step l.update since = some l') :
    updateIgnores (nameSet l.names) l'.todo = nameSet l'.names
      ↔ ∀ s, timesChanged s l.update since = 0 ∨ Odd (timesChanged s l.update since) := by
  have hdistinct : Distinct l.update.names := by
    show Distinct l.names
    exact distinct_run hbefore
  have hrec := records_run hdistinct hsince
  have htodo : l'.todo = (changesRun l.update since).reverse := by
    rw [hrec.todo]
    exact List.append_nil _
  have hnames : nameSet l'.names = replay (nameSet l.names)
      ((changesRun l.update since).map toChange) := hrec.replay
  have hreal : Real (nameSet l.names) ((changesRun l.update since).map toChange) := hrec.real
  rw [htodo, hnames, updateIgnores_eq fun d hd => hrec.noClear d (List.mem_reverse.mp hd),
    List.map_reverse, replay_reverse_eq_iff hreal]
  exact forall_times_iff (p := fun n => n = 0 ∨ Odd n) (Or.inl rfl) _

/-- The name `A`. -/
def nameA : Text := ⟨[65], by decide⟩

/-- A name that is inserted, erased and inserted again. -/
def insertTwice : List Op := [.insert nameA, .eraseName nameA, .insert nameA]

theorem updateIgnores_eq_iff_insertTwice :
    ∃ l', Runs.run step IgnoreList.new.update insertTwice = some l' ∧
      (updateIgnores (nameSet []) l'.todo = nameSet l'.names
        ↔ ∀ s, timesChanged s IgnoreList.new.update insertTwice = 0
          ∨ Odd (timesChanged s IgnoreList.new.update insertTwice)) :=
  ⟨⟨[nameA], [⟨nameA, .ADD⟩, ⟨nameA, .REMOVE⟩, ⟨nameA, .ADD⟩]⟩, rfl,
    updateIgnores_eq_iff [] insertTwice IgnoreList.new _ rfl rfl⟩

/-- A name that is inserted and erased again: the consumer deletes it and then inserts it. -/
theorem updateIgnores_ne_insert_erase :
    ∃ l', Runs.run step IgnoreList.new.update [.insert nameA, .eraseName nameA] = some l'
      ∧ updateIgnores (nameSet IgnoreList.new.names) l'.todo ≠ nameSet l'.names := by
  refine ⟨⟨[], [⟨nameA, .REMOVE⟩, ⟨nameA, .ADD⟩]⟩, rfl, ?_⟩
  intro h
  have hmem : lower nameA ∈ nameSet [] := h ▸ Finset.mem_insert_self (lower nameA) _
  exact Finset.notMem_empty _ hmem

end Napd.Ignore
