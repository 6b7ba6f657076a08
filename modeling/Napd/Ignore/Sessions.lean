import Napd.Ignore.Database
import Napd.Library.Runs
import Napd.Library.Store

/-!
Ignore lists over the sessions of their clients: the handlers of `ignore.cc` with `LoadIgnores` and
`UpdateIgnores` of `db.cc`, all compiled out at this commit, and the strings that they copy and
delete.

* `Session`: a client that is logged in. `findIn`, `insertAt`, `eraseAt`, `clear`, `load`, `update`,
  `addIgnore`, `removeIgnore`, `clearIgnores`: the functions of the source; `none` is a read of a
  string that was deleted.
* `System`, `Deed`, `step`: the table, the clients that are logged in, and what they do.
* `Kept`: **what is to be kept**, a set of names for each user, that logging out and in again leaves
  alone but for the names of nobody.
* `Keeps`: the invariant of a session; `step_refines`.
* `sessions_persist`: **the lists are kept, over every sequence of sessions, until a client removes
  a name before anything was written; then a deleted string is read.**
-/

namespace Napd

namespace Ignore

open Linked
open scoped List

/-- A client that is logged in: its name, the strings that its list points to, the list, `todo`. -/
structure Session where
  name : Text
  strings : Store Text
  names : List ℕ
  todo : List (ℕ × DeltaOp)

namespace Session

/-- `find`: the names are read up to the one that is found. -/
def findIn (strings : Store Text) (s : Text) : List ℕ → Option (Option ℕ)
  | [] => some none
  | p :: ps =>
      (strings.read (some p)).bind fun t =>
        if strcasecmp t s = 0 then some (some 0)
        else (findIn strings s ps).map fun i => i.map (· + 1)

/-- `find`. -/
def find (c : Session) (s : Text) : Option (Option ℕ) := findIn c.strings s c.names

/-- `insert(i, s)`. -/
def insertAt (c : Session) (i : ℕ) (s : Text) : Option Session :=
  (c.find s).map fun r =>
    if r.isSome then c
    else
      { c with
        strings := c.strings.alloc s
        names := c.names.insertIdx i c.strings.next
        todo := (c.strings.next, .ADD) :: c.todo }

/-- `erase(i)`. -/
def eraseAt (c : Session) (i : ℕ) : Option Session :=
  (c.names[i]?).map fun p => { c with names := c.names.eraseIdx i, todo := (p, .REMOVE) :: c.todo }

/-- `erase(s)`. -/
def eraseName (c : Session) (s : Text) : Option Session :=
  (c.find s).bind fun r => r.elim (some c) c.eraseAt

/-- The loop of `clear`. -/
def clearLoop : List ℕ → List (ℕ × DeltaOp) → List (ℕ × DeltaOp)
  | [], todo => todo
  | p :: ps, todo => clearLoop ps ((p, .REMOVE) :: todo)

/-- `clear`. -/
def clear (c : Session) : Session := { c with names := [], todo := clearLoop c.names c.todo }

/-- `LoadIgnores`, for the names that `fetch` gives. Each is copied before it is inserted. -/
def load (name : Text) (fetched : List Text) : Option Session :=
  fetched.foldlM (fun c username =>
    { c with strings := c.strings.alloc username }.insertAt 0 username) ⟨name, Store.empty, [], []⟩

section Update

variable (users : Users) (unique : Bool) (id : U32)

/-- One round of the loop of `UpdateIgnores`. -/
def consume (x : Store Text × Ignores) (d : ℕ × DeltaOp) : Option (Store Text × Ignores) :=
  match d.2 with
  | .ADD =>
      (x.1.read (some d.1)).map fun ignoree => (x.1, insertQuery users unique x.2 id ignoree)
  | .REMOVE =>
      (x.1.read (some d.1)).bind fun ignoree =>
        (x.1.free (some d.1)).map fun strings => (strings, deleteQuery users x.2 id ignoree)
  | .CLEAR => some x

/-- `update`, with `UpdateIgnores`. -/
def update (ignores : Ignores) (c : Session) : Option (Session × Ignores) :=
  (c.todo.foldlM (consume users unique id) (c.strings, ignores)).map fun x =>
    ({ c with strings := x.1, todo := [] }, x.2)

/-- `AddIgnore`. -/
def addIgnore (ignores : Ignores) (ignoree : Text) (c : Session) : Option (Session × Ignores) :=
  (c.find ignoree).bind fun r =>
    if r.isSome ∨ strcasecmp c.name ignoree = 0 then some (c, ignores)
    else (c.insertAt c.names.length ignoree).bind (update users unique id ignores)

/-- `RemoveIgnore`. -/
def removeIgnore (ignores : Ignores) (ignoree : Text) (c : Session) :
    Option (Session × Ignores) :=
  (c.find ignoree).bind fun r =>
    if r.isSome then (c.eraseName ignoree).bind (update users unique id ignores)
    else some (c, ignores)

/-- `ClearIgnores`. -/
def clearIgnores (ignores : Ignores) (c : Session) : Option (Session × Ignores) :=
  c.clear.update users unique id ignores

end Update

end Session

/-- The table, and the clients that are logged in. -/
structure System where
  ignores : Ignores
  clients : U32 → Option Session

/-- An order in which the rows of a query come. -/
abbrev Order := {f : List Text → List Text // ∀ l, f l ~ l}

/-- What happens: `Client::load`, the handlers, `Client::Update`, and `~Client`. -/
inductive Deed where
  | load (id : U32) (name : Text) (order : Order)
  | add (id : U32) (ignoree : Text)
  | remove (id : U32) (ignoree : Text)
  | clear (id : U32)
  | update (id : U32)
  | leave (id : U32)

namespace System

/-- A client that is logged in does something; nothing happens if it is not. -/
def serve (s : System) (id : U32) (f : Session → Option (Session × Ignores)) : Option System :=
  (s.clients id).elim (some s) fun c =>
    (f c).map fun r => ⟨r.2, Function.update s.clients id (some r.1)⟩

/-- A client logs in, unless it is logged in. -/
def load (users : Users) (s : System) (id : U32) (name : Text) (order : Order) : Option System :=
  (s.clients id).elim
    ((Session.load name (order.val (selectQuery users s.ignores id))).map fun c =>
      { s with clients := Function.update s.clients id (some c) })
    fun _ => some s

/-- `~IgnoreList`: what `clear` puts into `todo` is never read. -/
def leave (users : Users) (unique : Bool) (s : System) (id : U32) : Option System :=
  (s.clients id).elim (some s) fun c =>
    (c.update users unique id s.ignores).map fun r =>
      ⟨r.2, Function.update s.clients id none⟩

/-- One event. -/
def step (users : Users) (unique : Bool) (s : System) : Deed → Option System
  | .load id name order => s.load users id name order
  | .add id ignoree => s.serve id (Session.addIgnore users unique id s.ignores ignoree)
  | .remove id ignoree => s.serve id (Session.removeIgnore users unique id s.ignores ignoree)
  | .clear id => s.serve id (Session.clearIgnores users unique id s.ignores)
  | .update id => s.serve id (Session.update users unique id s.ignores)
  | .leave id => s.leave users unique id

/-- The names that a user ignores, case aside: those of its list, or those of the table. -/
def ignored (users : Users) (s : System) (id : U32) : Option (Finset (List U8)) :=
  (s.clients id).elim (some (stored users s.ignores id)) fun c =>
    (c.names.mapM fun p => c.strings.read (some p)).map nameSet

/-- What a client may do: to remove a name, it has nothing to write. -/
def Safe (s : System) : Deed → Prop
  | .remove id ignoree =>
      ∀ c, s.clients id = some c → c.find ignoree ≠ some none → c.todo = []
  | .clear id => ∀ c, s.clients id = some c → c.names ≠ [] → c.todo = []
  | _ => True

end System

/-! ### What is to be kept -/

/-- The names that each user ignores, case aside, and who is logged in under what name. -/
structure Kept where
  ignored : U32 → Finset (List U8)
  caller : U32 → Option Text

namespace Kept

/-- The names of a user who is logged in change. -/
def edit (k : Kept) (id : U32) (f : Text → Finset (List U8) → Finset (List U8)) : Kept :=
  (k.caller id).elim k fun name =>
    { k with ignored := Function.update k.ignored id (f name (k.ignored id)) }

/-- One event. Nobody ignores itself; who logs out forgets the names of nobody. -/
def step (registered : Finset (List U8)) (k : Kept) : Deed → Kept
  | .load id name _ =>
      (k.caller id).elim { k with caller := Function.update k.caller id (some name) } fun _ => k
  | .add id ignoree =>
      k.edit id fun name s => if strcasecmp name ignoree = 0 then s else insert (lower ignoree) s
  | .remove id ignoree => k.edit id fun _ s => s.erase (lower ignoree)
  | .clear id => k.edit id fun _ _ => ∅
  | .update _ => k
  | .leave id =>
      let k := k.edit id fun _ s => s ∩ registered
      { k with caller := Function.update k.caller id none }

end Kept

/-! ### The strings of a list -/

/-- The strings that pointers point to. -/
def texts (strings : Store Text) (ps : List ℕ) : List Text := ps.filterMap strings.cell

/-- Every pointer points to a string. -/
def AllLive (strings : Store Text) (ps : List ℕ) : Prop := ∀ p ∈ ps, strings.Live p

lemma texts_cons {strings : Store Text} {p : ℕ} {t : Text} (h : strings.cell p = some t)
    (ps : List ℕ) : texts strings (p :: ps) = t :: texts strings ps :=
  List.filterMap_cons_some h

lemma texts_congr {strings strings' : Store Text} {ps : List ℕ}
    (h : ∀ p ∈ ps, strings'.cell p = strings.cell p) : texts strings' ps = texts strings ps :=
  List.filterMap_congr h

lemma mapM_read {strings : Store Text} {ps : List ℕ} (h : AllLive strings ps) :
    ps.mapM (fun p => strings.read (some p)) = some (texts strings ps) := by
  induction ps with
  | nil => rfl
  | cons p ps ih =>
      obtain ⟨hp, hps⟩ := List.forall_mem_cons.mp h
      obtain ⟨t, ht⟩ := Option.ne_none_iff_exists'.mp hp
      rw [List.mapM_cons, ih hps, Store.read_some, ht, texts_cons ht]
      rfl

/-- The names of texts, of which some come twice. -/
lemma nameSet_mono {l m : List Text} (h : l ⊆ m) : nameSet l ⊆ nameSet m := by
  intro a ha
  rw [nameSet, List.mem_toFinset] at ha ⊢
  exact List.map_subset _ h ha

lemma nameSet_perm {l m : List Text} (h : l ~ m) : nameSet l = nameSet m :=
  List.toFinset_eq_of_perm _ _ (h.map _)

lemma nameSet_cons (t : Text) (l : List Text) : nameSet (t :: l) = insert (lower t) (nameSet l) :=
  List.toFinset_cons

lemma Distinct.perm {l m : List Text} (h : Distinct l) (hperm : l ~ m) : Distinct m :=
  (hperm.map lower).nodup_iff.mp h

lemma distinct_cons {t : Text} {l : List Text} (h : lower t ∉ nameSet l) (hl : Distinct l) :
    Distinct (t :: l) := List.nodup_cons.mpr ⟨fun hmem => h (List.mem_toFinset.mpr hmem), hl⟩

/-- **A search** ends behind the last name, or at a name that is the same, case aside. -/
lemma findIn_cases {strings : Store Text} {ps : List ℕ} (h : AllLive strings ps) (s : Text) :
    (Session.findIn strings s ps = some none ∧ lower s ∉ nameSet (texts strings ps)) ∨
    ∃ a p b t, ps = a ++ p :: b ∧ strings.cell p = some t ∧ lower t = lower s ∧
      Session.findIn strings s ps = some (some a.length) := by
  induction ps with
  | nil => exact .inl ⟨rfl, Finset.notMem_empty _⟩
  | cons p ps ih =>
      obtain ⟨hp, hps⟩ := List.forall_mem_cons.mp h
      obtain ⟨t, ht⟩ := Option.ne_none_iff_exists'.mp hp
      have hfind : Session.findIn strings s (p :: ps)
          = if strcasecmp t s = 0 then some (some 0)
            else (Session.findIn strings s ps).map fun i => i.map (· + 1) := by
        rw [Session.findIn, Store.read_some, ht, Option.bind_some]
      by_cases hsame : strcasecmp t s = 0
      · rw [if_pos hsame] at hfind
        exact .inr ⟨[], p, ps, t, rfl, ht, strcasecmp_eq_zero_iff.mp hsame, hfind⟩
      · rw [if_neg hsame] at hfind
        rcases ih hps with ⟨hnone, hnot⟩ | ⟨a, q, b, u, rfl, hu, hlower, hsome⟩
        · refine .inl ⟨by rw [hfind, hnone]; rfl, ?_⟩
          rw [texts_cons ht, nameSet_cons, Finset.mem_insert, not_or]
          exact ⟨fun heq => hsame (strcasecmp_eq_zero_iff.mpr heq.symm), hnot⟩
        · exact .inr ⟨p :: a, q, b, u, rfl, hu, hlower, by rw [hfind, hsome]; rfl⟩

/-! ### What is written -/

section Consume

variable (users : Users) (unique : Bool) (id : U32)

/-- What was written for a user, and that nothing was written for the others. -/
structure Wrote (before after : Ignores) (names : Finset (List U8)) : Prop where
  own : stored users after id = names
  others : ∀ k, k ≠ id → stored users after k = stored users before k

/-- **Names that are added** are written if they are those of users. -/
lemma consume_adds {strings : Store Text} {qs : List ℕ} (h : AllLive strings qs)
    (ignores : Ignores) :
    ∃ ignores', (qs.map fun q => (q, DeltaOp.ADD)).foldlM
        (Session.consume users unique id) (strings, ignores) = some (strings, ignores') ∧
      Wrote users id ignores ignores'
        (stored users ignores id ∪ nameSet (texts strings qs) ∩ registered users) := by
  induction qs generalizing ignores with
  | nil => exact ⟨ignores, rfl, (Finset.union_empty _).symm, fun _ _ => rfl⟩
  | cons q qs ih =>
      obtain ⟨hq, hqs⟩ := List.forall_mem_cons.mp h
      obtain ⟨t, ht⟩ := Option.ne_none_iff_exists'.mp hq
      obtain ⟨ignores', hrun, hwrote⟩ := ih hqs (insertQuery users unique ignores id t)
      refine ⟨ignores', ?_, ?_, fun k hk => ?_⟩
      · have hone : Session.consume users unique id (strings, ignores) (q, DeltaOp.ADD)
            = some (strings, insertQuery users unique ignores id t) := by
          rw [Session.consume]
          dsimp only
          rw [Store.read_some, ht, Option.map_some]
        rw [List.map_cons, List.foldlM_cons, hone]
        exact hrun
      · rw [hwrote.own, stored_insertQuery, texts_cons ht, nameSet_cons]
        ext a
        split_ifs with hreg
        · simp only [Finset.mem_union, Finset.mem_insert, Finset.mem_inter]
          constructor
          · rintro ((rfl | hold) | hnew)
            · exact .inr ⟨.inl rfl, hreg.2⟩
            · exact .inl hold
            · exact .inr ⟨.inr hnew.1, hnew.2⟩
          · rintro (hold | ⟨rfl | hnew, hmem⟩)
            · exact .inl (.inr hold)
            · exact .inl (.inl rfl)
            · exact .inr ⟨hnew, hmem⟩
        · simp only [Finset.mem_union, Finset.mem_insert, Finset.mem_inter]
          refine or_congr_right (and_congr_left fun hmem => ?_)
          exact (or_iff_right fun heq : a = lower t => hreg ⟨rfl, heq ▸ hmem⟩).symm
      · rw [hwrote.others k hk, stored_insertQuery, if_neg fun hboth => hk hboth.1]

/-- **Names that are removed** are deleted from the table, and their strings with them. -/
lemma consume_removes {strings : Store Text} {ps : List ℕ} (h : AllLive strings ps)
    (hnodup : ps.Nodup) (ignores : Ignores) :
    ∃ strings' ignores', (ps.map fun p => (p, DeltaOp.REMOVE)).foldlM
        (Session.consume users unique id) (strings, ignores) = some (strings', ignores') ∧
      (∀ p ∈ ps, strings'.cell p = none) ∧ (∀ p, p ∉ ps → strings'.cell p = strings.cell p) ∧
      Wrote users id ignores ignores' (stored users ignores id \ nameSet (texts strings ps)) := by
  induction ps generalizing strings ignores with
  | nil =>
      exact ⟨strings, ignores, rfl, fun _ hp => absurd hp List.not_mem_nil, fun _ _ => rfl,
        Finset.sdiff_empty.symm, fun _ _ => rfl⟩
  | cons p ps ih =>
      obtain ⟨hp, hps⟩ := List.forall_mem_cons.mp h
      obtain ⟨hnot, hnodup'⟩ := List.nodup_cons.mp hnodup
      obtain ⟨t, ht⟩ := Option.ne_none_iff_exists'.mp hp
      obtain ⟨strings₁, hfree, hdead, hsame⟩ := Store.exists_free hp
      have hsame' : ∀ q ∈ ps, strings₁.cell q = strings.cell q :=
        fun q hq => hsame q fun heq => hnot (heq ▸ hq)
      have hlive : AllLive strings₁ ps := fun q hq => by
        rw [Store.Live, hsame' q hq]
        exact hps q hq
      obtain ⟨strings', ignores', hrun, hgone, hkept, hwrote⟩ :=
        ih hlive hnodup' (deleteQuery users ignores id t)
      refine ⟨strings', ignores', ?_, ?_, ?_, ?_, fun k hk => ?_⟩
      · have hone : Session.consume users unique id (strings, ignores) (p, DeltaOp.REMOVE)
            = some (strings₁, deleteQuery users ignores id t) := by
          rw [Session.consume]
          dsimp only
          rw [Store.read_some, ht, Option.bind_some, hfree, Option.map_some]
        rw [List.map_cons, List.foldlM_cons, hone]
        exact hrun
      · refine List.forall_mem_cons.mpr ⟨?_, hgone⟩
        rw [hkept p hnot, hdead]
      · intro q hq
        rw [List.mem_cons, not_or] at hq
        rw [hkept q hq.2, hsame q hq.1]
      · rw [hwrote.own, stored_deleteQuery, if_pos rfl, texts_congr hsame', texts_cons ht,
          nameSet_cons, Finset.sdiff_insert, Finset.erase_sdiff_comm]
      · rw [hwrote.others k hk, stored_deleteQuery, if_neg hk]

/-- **A name that was deleted is read** when it is to be added. -/
lemma consume_dead {strings : Store Text} {qs : List ℕ} {q : ℕ} (hq : q ∈ qs)
    (hdead : strings.cell q = none) (ignores : Ignores) :
    (qs.map fun q => (q, DeltaOp.ADD)).foldlM (Session.consume users unique id)
      (strings, ignores) = none := by
  induction qs generalizing ignores with
  | nil => exact absurd hq List.not_mem_nil
  | cons p ps ih =>
      have hone : Session.consume users unique id (strings, ignores) (p, DeltaOp.ADD)
          = (strings.cell p).map fun t => (strings, insertQuery users unique ignores id t) := rfl
      rw [List.map_cons, List.foldlM_cons, hone]
      cases hp : strings.cell p with
      | none => rfl
      | some t =>
          have hne : q ≠ p := by
            rintro rfl
            rw [hdead] at hp
            cases hp
          exact ih (List.mem_of_ne_of_mem hne hq) _

end Consume

/-! ### A session -/

/-- The list of a session: its pointers are those of strings, no two of which are the same name. -/
structure Listed (c : Session) : Prop where
  live : AllLive c.strings c.names
  nodup : c.names.Nodup
  distinct : Distinct (texts c.strings c.names)

/-- What is in `todo` when nothing was written since the list was loaded. -/
def Session.Fresh (c : Session) : Prop :=
  ∃ qs, qs ~ c.names ∧ c.todo = qs.map fun q => (q, DeltaOp.ADD)

/-- A session, and what the table holds for it: its list but for the names of nobody. -/
structure Keeps (users : Users) (held : Finset (List U8)) (c : Session) : Prop extends
    Listed c where
  held : held = nameSet (texts c.strings c.names) ∩ registered users
  todo : c.todo = [] ∨ c.Fresh

/-- The names of a session. -/
abbrev Session.ignored (c : Session) : Finset (List U8) := nameSet (texts c.strings c.names)

lemma clearLoop_eq_append (ps : List ℕ) (todo : List (ℕ × DeltaOp)) :
    Session.clearLoop ps todo = (ps.reverse.map fun p => (p, DeltaOp.REMOVE)) ++ todo := by
  induction ps generalizing todo with
  | nil => rfl
  | cons p ps ih =>
      rw [Session.clearLoop, ih, List.reverse_cons, List.map_append, List.append_assoc]
      rfl

/-- A name was inserted. -/
structure Inserted (c c' : Session) (s : Text) : Prop extends Listed c' where
  name : c'.name = c.name
  names : c'.names ~ c.strings.next :: c.names
  old : ∀ q ∈ c.names, c'.strings.cell q = c.strings.cell q
  text : c'.strings.cell c.strings.next = some s
  todo : c'.todo = (c.strings.next, DeltaOp.ADD) :: c.todo

lemma Inserted.texts {c c' : Session} {s : Text} (h : Inserted c c' s) :
    texts c'.strings c'.names ~ s :: texts c.strings c.names := by
  have hcons := h.names.filterMap c'.strings.cell
  rw [List.filterMap_cons_some h.text] at hcons
  exact hcons.trans (List.Perm.of_eq (congrArg (s :: ·) (texts_congr h.old)))

lemma Inserted.ignored {c c' : Session} {s : Text} (h : Inserted c c' s) :
    c'.ignored = insert (lower s) c.ignored := (nameSet_perm h.texts).trans (nameSet_cons s _)

namespace Listed

variable {c : Session} (h : Listed c)
include h

/-- Where another string is copied, the list is as it was. -/
lemma alloc (s : Text) : Listed { c with strings := c.strings.alloc s } ∧
    ∀ q ∈ c.names, (c.strings.alloc s).cell q = c.strings.cell q := by
  have hold : ∀ q ∈ c.names, (c.strings.alloc s).cell q = c.strings.cell q :=
    fun q hq => Function.update_of_ne (Store.ne_next (h.live q hq)) ..
  refine ⟨⟨fun p hp => (Store.live_alloc _ _ _).mpr (.inl (h.live p hp)), h.nodup, ?_⟩, hold⟩
  show Distinct (texts (c.strings.alloc s) c.names)
  rw [texts_congr hold]
  exact h.distinct

/-- A name is inserted that is not in the list. -/
lemma insertAt {i : ℕ} (hi : i ≤ c.names.length) {s : Text} (hnew : c.find s = some none)
    (hnot : lower s ∉ c.ignored) : ∃ c', c.insertAt i s = some c' ∧ Inserted c c' s := by
  have hperm : c.names.insertIdx i c.strings.next ~ c.strings.next :: c.names :=
    List.perm_insertIdx _ _ hi
  have hfresh : c.strings.next ∉ c.names := fun hmem => Store.ne_next (h.live _ hmem) rfl
  have hold := (h.alloc s).2
  have hcell : (c.strings.alloc s).cell c.strings.next = some s := Function.update_self ..
  have htexts : texts (c.strings.alloc s) (c.names.insertIdx i c.strings.next)
      ~ s :: texts c.strings c.names := by
    have hcons := hperm.filterMap (c.strings.alloc s).cell
    rw [List.filterMap_cons_some hcell] at hcons
    exact hcons.trans (List.Perm.of_eq (congrArg (s :: ·) (texts_congr hold)))
  refine ⟨{ c with
      strings := c.strings.alloc s
      names := c.names.insertIdx i c.strings.next
      todo := (c.strings.next, .ADD) :: c.todo },
    by rw [Session.insertAt, hnew, Option.map_some]; rfl, ⟨?_, ?_, ?_⟩, rfl, hperm, hold,
      hcell, rfl⟩
  · intro p hp
    refine (Store.live_alloc _ _ _).mpr ?_
    rcases List.mem_cons.mp (hperm.mem_iff.mp hp) with hp | hp
    · exact .inr hp
    · exact .inl (h.live p hp)
  · exact hperm.nodup_iff.mpr (List.nodup_cons.mpr ⟨hfresh, h.nodup⟩)
  · exact (distinct_cons hnot h.distinct).perm htexts.symm

/-- A name is taken out of the list. -/
lemma erase {a b : List ℕ} {p : ℕ} {t : Text} (hnames : c.names = a ++ p :: b)
    (ht : c.strings.cell p = some t) {strings' : Store Text}
    (hsame : ∀ q, q ∉ [p] → strings'.cell q = c.strings.cell q) (todo : List (ℕ × DeltaOp)) :
    Listed { c with strings := strings', names := a ++ b, todo := todo } ∧
      nameSet (texts strings' (a ++ b)) = c.ignored.erase (lower t) := by
  have hperm : c.names ~ p :: (a ++ b) := hnames ▸ List.perm_middle
  obtain ⟨hnot, hnodup⟩ := List.nodup_cons.mp (hperm.nodup_iff.mp h.nodup)
  have hrest : ∀ q ∈ a ++ b, strings'.cell q = c.strings.cell q :=
    fun q hq => hsame q fun heq => hnot (List.mem_singleton.mp heq ▸ hq)
  have htexts : texts c.strings c.names ~ t :: texts strings' (a ++ b) := by
    have hcons := hperm.filterMap c.strings.cell
    rw [List.filterMap_cons_some ht] at hcons
    exact hcons.trans (List.Perm.of_eq (congrArg (t :: ·) (texts_congr hrest).symm))
  have hdistinct : Distinct (t :: texts strings' (a ++ b)) := h.distinct.perm htexts
  refine ⟨⟨fun q hq => ?_, hnodup, (List.nodup_cons.mp hdistinct).2⟩, ?_⟩
  · show strings'.Live q
    rw [Store.Live, hrest q hq]
    exact h.live q (hperm.mem_iff.mpr (List.mem_cons_of_mem p hq))
  · rw [Session.ignored, nameSet_perm htexts, nameSet_erase hdistinct]

end Listed

/-! ### Loading -/

/-- A list that was just loaded. -/
structure Loaded (name : Text) (fetched : List Text) (c : Session) : Prop extends Listed c where
  name : c.name = name
  ignored : c.ignored = nameSet fetched
  fresh : c.Fresh

/-- One more name is loaded. -/
lemma Loaded.load {name : Text} {fetched : List Text} {c : Session}
    (h : Loaded name fetched c) (s : Text) :
    ∃ c', { c with strings := c.strings.alloc s }.insertAt 0 s = some c' ∧
      Loaded name (fetched ++ [s]) c' := by
  obtain ⟨hlisted, hold⟩ := h.toListed.alloc s
  have hset : nameSet (fetched ++ [s]) = insert (lower s) (nameSet fetched) :=
    (nameSet_perm List.perm_append_comm).trans (nameSet_cons s fetched)
  have hignored : nameSet (texts (c.strings.alloc s) c.names) = nameSet fetched :=
    (congrArg nameSet (texts_congr hold)).trans h.ignored
  obtain ⟨qs, hqs, htodo⟩ := h.fresh
  rcases findIn_cases hlisted.live s with ⟨hnone, hnot⟩ | ⟨a, p, b, t, hnames, ht, hlower, hsome⟩
  · obtain ⟨c', hinsert, hinserted⟩ := hlisted.insertAt (Nat.zero_le _) hnone hnot
    refine ⟨c', hinsert, hinserted.toListed, hinserted.name.trans h.name, ?_, ?_⟩
    · rw [hinserted.ignored, hset]
      exact congrArg _ hignored
    · refine ⟨(c.strings.next + 1) :: qs, (hqs.cons _).trans hinserted.names.symm, ?_⟩
      rw [hinserted.todo, List.map_cons, ← htodo]
      rfl
  · refine ⟨{ c with strings := c.strings.alloc s }, ?_, hlisted, h.name, ?_, ⟨qs, hqs, htodo⟩⟩
    · have hfind : { c with strings := c.strings.alloc s }.find s = some (some a.length) := hsome
      rw [Session.insertAt, hfind]
      rfl
    · rw [hset, Finset.insert_eq_of_mem, ← hignored]
      rw [← hignored, ← hlower]
      refine mem_nameSet.mpr ⟨t, List.mem_filterMap.mpr ⟨p, ?_, ht⟩, rfl⟩
      rw [hnames]
      exact List.mem_append_right _ List.mem_cons_self

/-- **The list that is loaded** has the names that were fetched. -/
lemma load_loaded (name : Text) (fetched : List Text) :
    ∃ c, Session.load name fetched = some c ∧ Loaded name fetched c := by
  have hloop : ∀ (rest done : List Text) (c : Session), Loaded name done c →
      ∃ c', rest.foldlM (fun c username =>
        { c with strings := c.strings.alloc username }.insertAt 0 username) c = some c' ∧
        Loaded name (done ++ rest) c' := by
    intro rest
    induction rest with
    | nil =>
        intro done c h
        exact ⟨c, rfl, by rwa [List.append_nil]⟩
    | cons s rest ih =>
        intro done c h
        obtain ⟨c₁, hone, h₁⟩ := h.load s
        obtain ⟨c', hrun, h'⟩ := ih (done ++ [s]) c₁ h₁
        refine ⟨c', ?_, by rwa [List.append_assoc] at h'⟩
        rw [List.foldlM_cons, hone]
        exact hrun
  refine hloop fetched [] ⟨name, Store.empty, [], []⟩
      ⟨⟨?_, List.nodup_nil, List.nodup_nil⟩, rfl, rfl,
    ⟨[], .refl _, rfl⟩⟩
  exact fun p hp => absurd hp List.not_mem_nil

/-! ### The events at a session -/

/-- What an event at a session leaves: the list, and what is written. -/
structure Leaves (users : Users) (id : U32) (ignores ignores' : Ignores) (c c' : Session)
    (names : Finset (List U8)) : Prop where
  keeps : Keeps users (stored users ignores' id) c'
  others : ∀ k, k ≠ id → stored users ignores' k = stored users ignores k
  name : c'.name = c.name
  ignored : c'.ignored = names

section Events

variable (users : Users) (unique : Bool) (id : U32) (ignores : Ignores)

/-- An update of names that were added, and that are all in the list. -/
lemma update_adds {c : Session} (h : Listed c) {qs : List ℕ} (hqs : qs ⊆ c.names)
    (htodo : c.todo = qs.map fun q => (q, DeltaOp.ADD))
    (hheld : nameSet (texts c.strings c.names) ∩ registered users
      = stored users ignores id ∪ nameSet (texts c.strings qs) ∩ registered users) :
    ∃ c' ignores', c.update users unique id ignores = some (c', ignores') ∧
      Leaves users id ignores ignores' c c' c.ignored := by
  obtain ⟨ignores', hrun, hwrote⟩ :=
    consume_adds users unique id (fun q hq => h.live q (hqs hq)) ignores
  refine ⟨{ c with todo := [] }, ignores', ?_, ⟨⟨⟨h.live, h.nodup, h.distinct⟩, ?_, .inl rfl⟩,
    hwrote.others, rfl, rfl⟩⟩
  · rw [Session.update, htodo, hrun, Option.map_some]
  · rw [hwrote.own, ← hheld]

/-- An update of names that were removed. -/
lemma update_removes {c : Session} {ps : List ℕ} (hlive : AllLive c.strings ps) (hps : ps.Nodup)
    (htodo : c.todo = ps.map fun p => (p, DeltaOp.REMOVE)) :
    ∃ strings' ignores', c.update users unique id ignores
        = some ({ c with strings := strings', todo := [] }, ignores') ∧
      (∀ p, p ∉ ps → strings'.cell p = c.strings.cell p) ∧
      Wrote users id ignores ignores'
        (stored users ignores id \ nameSet (texts c.strings ps)) := by
  obtain ⟨strings', ignores', hrun, -, hsame, hwrote⟩ :=
    consume_removes users unique id hlive hps ignores
  refine ⟨strings', ignores', ?_, hsame, hwrote⟩
  rw [Session.update, htodo, hrun, Option.map_some]

/-- An update of names that were removed before they were written. -/
lemma update_dead {c : Session} {ps qs : List ℕ} (hlive : AllLive c.strings ps) (hps : ps.Nodup)
    {p : ℕ} (hp : p ∈ ps) (hq : p ∈ qs)
    (htodo : c.todo = (ps.map fun p => (p, DeltaOp.REMOVE)) ++ qs.map fun q => (q, DeltaOp.ADD)) :
    c.update users unique id ignores = none := by
  obtain ⟨strings', ignores', hrun, hdead, -, -⟩ :=
    consume_removes users unique id hlive hps ignores
  rw [Session.update, htodo, List.foldlM_append, hrun]
  show Option.map _ (List.foldlM _ _ _) = none
  rw [consume_dead users unique id hq (hdead p hp), Option.map_none]

/-- The name that was found is erased. -/
lemma eraseName_eq {c : Session} {s : Text} {a b : List ℕ} {p : ℕ}
    (hfind : c.find s = some (some a.length)) (hnames : c.names = a ++ p :: b) :
    c.eraseName s = some { c with names := a ++ b, todo := (p, .REMOVE) :: c.todo } := by
  have hget : c.names[a.length]? = some p := by
    rw [hnames, List.getElem?_append_right le_rfl, Nat.sub_self]
    rfl
  have herase : c.names.eraseIdx a.length = a ++ b := by
    rw [hnames, List.eraseIdx_append_of_length_le le_rfl, Nat.sub_self]
    rfl
  rw [Session.eraseName, hfind, Option.bind_some]
  show c.eraseAt a.length = _
  rw [Session.eraseAt, hget, Option.map_some, herase]

namespace Keeps

variable {users id ignores} {c : Session} (h : Keeps users (stored users ignores id) c)
include h

/-- What is in `todo`: names of the list, to be added. -/
lemma pending : ∃ qs, qs ⊆ c.names ∧ c.todo = qs.map (fun q => (q, DeltaOp.ADD)) ∧
    nameSet (texts c.strings qs) ⊆ c.ignored := by
  rcases h.todo with hnil | ⟨qs, hqs, htodo⟩
  · exact ⟨[], List.nil_subset _, hnil, Finset.empty_subset _⟩
  · exact ⟨qs, hqs.subset, htodo, nameSet_mono (hqs.filterMap c.strings.cell).subset⟩

/-- **`update`** leaves the list as it is. -/
lemma update : ∃ c' ignores', c.update users unique id ignores = some (c', ignores') ∧
    Leaves users id ignores ignores' c c' c.ignored := by
  obtain ⟨qs, hqs, htodo, hset⟩ := h.pending
  refine update_adds users unique id ignores h.toListed hqs htodo ?_
  rw [h.held, ← Finset.union_inter_distrib_right, Finset.union_eq_left.mpr hset]

/-- **`AddIgnore`** adds the name, unless it is that of the client. -/
lemma addIgnore (s : Text) : ∃ c' ignores',
    c.addIgnore users unique id ignores s = some (c', ignores') ∧
      Leaves users id ignores ignores' c c'
        (if strcasecmp c.name s = 0 then c.ignored else insert (lower s) c.ignored) := by
  rcases findIn_cases h.live s with ⟨hnone, hnot⟩ | ⟨a, p, b, t, hnames, ht, hlower, hsome⟩
  · have hfind : c.find s = some none := hnone
    by_cases hown : strcasecmp c.name s = 0
    · refine ⟨c, ignores, ?_, ⟨h, fun _ _ => rfl, rfl, by rw [if_pos hown]⟩⟩
      rw [Session.addIgnore, hfind, Option.bind_some, if_pos (.inr hown)]
    · obtain ⟨c₁, hinsert, h₁⟩ := h.toListed.insertAt le_rfl hfind hnot
      have hrun : c.addIgnore users unique id ignores s
          = c₁.update users unique id ignores := by
        rw [Session.addIgnore, hfind, Option.bind_some, if_neg, hinsert, Option.bind_some]
        rintro (hsome | hsame)
        · cases hsome
        · exact hown hsame
      -- what is written is the new name, and the others if they were not written yet
      obtain ⟨qs, hqs, htodo, hset⟩ := h.pending
      have hsub : c.strings.next :: qs ⊆ c₁.names := by
        intro q hq
        refine h₁.names.mem_iff.mpr ?_
        exact (List.mem_cons.mp hq).elim (fun heq => heq ▸ List.mem_cons_self)
          fun hq => List.mem_cons_of_mem _ (hqs hq)
      have htexts : texts c₁.strings (c.strings.next :: qs) = s :: texts c.strings qs := by
        rw [texts_cons h₁.text, texts_congr fun q hq => h₁.old q (hqs hq)]
      have hwritten : nameSet (texts c₁.strings c₁.names) ∩ registered users
          = stored users ignores id
            ∪ nameSet (texts c₁.strings (c.strings.next :: qs)) ∩ registered users := by
        rw [h.held, ← Finset.union_inter_distrib_right, htexts, nameSet_cons, Finset.union_insert,
          Finset.union_eq_left.mpr hset]
        exact congrArg (· ∩ registered users) h₁.ignored
      obtain ⟨c', ignores', hupdate, hleaves⟩ := update_adds users unique id ignores h₁.toListed
        hsub (by rw [h₁.todo, htodo]; rfl) hwritten
      refine ⟨c', ignores', hrun.trans hupdate, ⟨hleaves.keeps, hleaves.others,
        hleaves.name.trans h₁.name, ?_⟩⟩
      rw [hleaves.ignored, h₁.ignored, if_neg hown]
  · have hfind : c.find s = some (some a.length) := hsome
    have hmem : lower s ∈ c.ignored := by
      rw [← hlower]
      refine mem_nameSet.mpr ⟨t, List.mem_filterMap.mpr ⟨p, ?_, ht⟩, rfl⟩
      rw [hnames]
      exact List.mem_append_right _ List.mem_cons_self
    refine ⟨c, ignores, ?_, ⟨h, fun _ _ => rfl, rfl, ?_⟩⟩
    · rw [Session.addIgnore, hfind, Option.bind_some, if_pos (.inl rfl)]
    · rw [Finset.insert_eq_of_mem hmem, ite_self]

/-- **`RemoveIgnore`** removes the name, and deletes its string. -/
lemma removeIgnore {s : Text} (hsafe : c.find s ≠ some none → c.todo = []) : ∃ c' ignores',
    c.removeIgnore users unique id ignores s = some (c', ignores') ∧
      Leaves users id ignores ignores' c c' (c.ignored.erase (lower s)) := by
  rcases findIn_cases h.live s with ⟨hnone, hnot⟩ | ⟨a, p, b, t, hnames, ht, hlower, hsome⟩
  · have hfind : c.find s = some none := hnone
    refine ⟨c, ignores, ?_, ⟨h, fun _ _ => rfl, rfl, (Finset.erase_eq_of_notMem hnot).symm⟩⟩
    rw [Session.removeIgnore, hfind, Option.bind_some, Option.isSome_none,
      if_neg Bool.false_ne_true]
  · have hfind : c.find s = some (some a.length) := hsome
    have hnil : c.todo = [] := hsafe (by rw [hfind]; exact nofun)
    have herase := eraseName_eq hfind hnames
    have hp : p ∈ c.names := by
      rw [hnames]
      exact List.mem_append_right _ List.mem_cons_self
    have hlive : AllLive c.strings [p] := List.forall_mem_singleton.mpr (h.live p hp)
    have htodo : ({ c with names := a ++ b, todo := (p, .REMOVE) :: c.todo } : Session).todo
        = [p].map fun p => (p, DeltaOp.REMOVE) := by
      rw [hnil]
      rfl
    obtain ⟨strings', ignores', hupdate, hsame, hwrote⟩ :=
      update_removes users unique id ignores
        (c := { c with names := a ++ b, todo := (p, .REMOVE) :: c.todo }) hlive
        (List.nodup_singleton p) htodo
    obtain ⟨hlisted, hignored⟩ := h.toListed.erase hnames ht hsame []
    refine ⟨_, ignores', ?_, ⟨⟨hlisted, ?_, .inl rfl⟩, hwrote.others, rfl, ?_⟩⟩
    · rw [Session.removeIgnore, hfind, Option.bind_some, Option.isSome_some, if_pos rfl, herase,
        Option.bind_some, hupdate]
    · rw [hwrote.own, h.held]
      show _ \ nameSet (texts c.strings [p]) = nameSet (texts strings' (a ++ b)) ∩ _
      rw [hignored, Finset.erase_inter, texts_cons ht, nameSet_cons]
      exact Finset.sdiff_singleton_eq_erase _ _
    · exact hignored.trans (congrArg _ hlower)

/-- A name is removed before it was written. -/
lemma removeIgnore_dead {s : Text} (hfind : c.find s ≠ some none) (htodo : c.todo ≠ []) :
    c.removeIgnore users unique id ignores s = none := by
  rcases findIn_cases h.live s with ⟨hnone, -⟩ | ⟨a, p, b, t, hnames, -, -, hsome⟩
  · exact absurd hnone hfind
  · have hsome : c.find s = some (some a.length) := hsome
    obtain ⟨qs, hqs, hadds⟩ := h.todo.resolve_left htodo
    have hp : p ∈ c.names := by
      rw [hnames]
      exact List.mem_append_right _ List.mem_cons_self
    have hlive : AllLive c.strings [p] := List.forall_mem_singleton.mpr (h.live p hp)
    have hdead : ({ c with names := a ++ b, todo := (p, .REMOVE) :: c.todo } : Session).todo
        = ([p].map fun p => (p, DeltaOp.REMOVE)) ++ qs.map fun q => (q, DeltaOp.ADD) := by
      rw [hadds]
      rfl
    rw [Session.removeIgnore, hsome, Option.bind_some, Option.isSome_some, if_pos rfl,
      eraseName_eq hsome hnames, Option.bind_some]
    exact update_dead users unique id ignores
      (c := { c with names := a ++ b, todo := (p, .REMOVE) :: c.todo }) hlive
      (List.nodup_singleton p) List.mem_cons_self (hqs.mem_iff.mpr hp) hdead

/-- **`ClearIgnores`** removes all names. -/
lemma clearIgnores (hsafe : c.names ≠ [] → c.todo = []) : ∃ c' ignores',
    c.clearIgnores users unique id ignores = some (c', ignores') ∧
      Leaves users id ignores ignores' c c' ∅ := by
  have hnil : c.todo = [] := by
    by_cases hnames : c.names = []
    · refine h.todo.elim (fun hnil => hnil) ?_
      rintro ⟨qs, hqs, htodo⟩
      rw [hnames, List.perm_nil] at hqs
      rw [htodo, hqs, List.map_nil]
    · exact hsafe hnames
  have htodo : c.clear.todo = c.names.reverse.map fun p => (p, DeltaOp.REMOVE) := by
    show Session.clearLoop c.names c.todo = _
    rw [clearLoop_eq_append, hnil, List.append_nil]
  obtain ⟨strings', ignores', hupdate, -, hwrote⟩ := update_removes users unique id ignores
    (c := c.clear) (fun p hp => h.live p (List.mem_reverse.mp hp))
    (List.nodup_reverse.mpr h.nodup) htodo
  refine ⟨_, ignores', hupdate, ⟨⟨⟨?_, List.nodup_nil, List.nodup_nil⟩, ?_, .inl rfl⟩,
    hwrote.others, rfl, rfl⟩⟩
  · exact fun p hp => absurd hp List.not_mem_nil
  · have hall : nameSet (texts c.strings c.names.reverse) = c.ignored :=
      nameSet_perm ((List.reverse_perm _).filterMap _)
    have hempty : stored users ignores id \ nameSet (texts c.strings c.names.reverse) = ∅ := by
      rw [h.held, hall]
      exact Finset.sdiff_eq_empty_iff_subset.mpr Finset.inter_subset_left
    exact (hwrote.own.trans hempty).trans (Finset.empty_inter _).symm

/-- All names are removed before they were written. -/
lemma clearIgnores_dead (hnames : c.names ≠ []) (htodo : c.todo ≠ []) :
    c.clearIgnores users unique id ignores = none := by
  obtain ⟨qs, hqs, hadds⟩ := h.todo.resolve_left htodo
  obtain ⟨p, hp⟩ := List.exists_mem_of_ne_nil _ hnames
  refine update_dead users unique id ignores (c := c.clear)
    (fun p hp => h.live p (List.mem_reverse.mp hp)) (List.nodup_reverse.mpr h.nodup)
    (List.mem_reverse.mpr hp) (hqs.mem_iff.mpr hp) ?_
  show Session.clearLoop c.names c.todo = _
  rw [clearLoop_eq_append, hadds]

end Keeps

end Events

/-! ### All users -/

/-- A user, as it is and as it is to be kept. -/
inductive Agrees (users : Users) (s : System) (k : Kept) (id : U32) : Prop where
  | away (client : s.clients id = none) (caller : k.caller id = none)
      (ignored : stored users s.ignores id = k.ignored id)
  | here (c : Session) (client : s.clients id = some c) (caller : k.caller id = some c.name)
      (keeps : Keeps users (stored users s.ignores id) c) (ignored : c.ignored = k.ignored id)

variable {users : Users} {unique : Bool} {s : System} {k : Kept} {id : U32}

/-- A user that nothing happens to. -/
lemma Agrees.frame (h : Agrees users s k id) {s' : System} {k' : Kept}
    (hclient : s'.clients id = s.clients id)
    (hstored : stored users s'.ignores id = stored users s.ignores id)
    (hcaller : k'.caller id = k.caller id) (hignored : k'.ignored id = k.ignored id) :
    Agrees users s' k' id := by
  cases h with
  | away client caller ignored =>
      exact .away (hclient.trans client) (hcaller.trans caller)
        (hstored.trans (ignored.trans hignored.symm))
  | here c client caller keeps ignored =>
      exact .here c (hclient.trans client) (hcaller.trans caller) (hstored ▸ keeps)
        (ignored.trans hignored.symm)

/-- What the users ignore is what is to be kept. -/
lemma Agrees.ignored (h : Agrees users s k id) : s.ignored users id = some (k.ignored id) := by
  cases h with
  | away client caller ignored =>
      rw [System.ignored, client]
      exact congrArg some ignored
  | here c client caller keeps ignored =>
      rw [System.ignored, client]
      show Option.map nameSet _ = _
      rw [mapM_read keeps.live, Option.map_some]
      exact congrArg some ignored

lemma edit_here {name : Text} (h : k.caller id = some name)
    (g : Text → Finset (List U8) → Finset (List U8)) :
    k.edit id g = { k with ignored := Function.update k.ignored id (g name (k.ignored id)) } := by
  rw [Kept.edit, h]
  rfl

lemma edit_away (h : k.caller id = none) (g : Text → Finset (List U8) → Finset (List U8)) :
    k.edit id g = k := by
  rw [Kept.edit, h]
  rfl

lemma edit_same (k : Kept) (id : U32) : k.edit id (fun _ s => s) = k := by
  cases h : k.caller id with
  | none => exact edit_away h _
  | some name => rw [edit_here h, Function.update_eq_self]

/-- **A client does something**: its list changes as it is to, and what is written of it. -/
lemma serve_agrees (h : ∀ i, Agrees users s k i) (id : U32)
    (f : Session → Option (Session × Ignores)) (g : Text → Finset (List U8) → Finset (List U8))
    (hf : ∀ c, s.clients id = some c → Keeps users (stored users s.ignores id) c →
      ∃ c' ignores', f c = some (c', ignores') ∧
        Leaves users id s.ignores ignores' c c' (g c.name c.ignored)) :
    ∃ s', s.serve id f = some s' ∧ ∀ i, Agrees users s' (k.edit id g) i := by
  cases h id with
  | away client caller _ =>
      refine ⟨s, by rw [System.serve, client]; rfl, ?_⟩
      rw [edit_away caller]
      exact h
  | here c client caller keeps ignored =>
      obtain ⟨c', ignores', hrun, hleaves⟩ := hf c client keeps
      refine ⟨⟨ignores', Function.update s.clients id (some c')⟩, ?_, fun i => ?_⟩
      · rw [System.serve, client]
        show Option.map _ (f c) = _
        rw [hrun, Option.map_some]
      · rw [edit_here caller]
        by_cases hi : i = id
        · subst hi
          refine .here c' (Function.update_self ..) (hleaves.name ▸ caller) hleaves.keeps ?_
          show _ = Function.update k.ignored i (g c.name (k.ignored i)) i
          rw [hleaves.ignored, ignored, Function.update_self]
        · exact (h i).frame (Function.update_of_ne hi ..) (hleaves.others i hi) rfl
            (Function.update_of_ne hi ..)

/-- **A client logs in.** -/
lemma load_agrees (h : ∀ i, Agrees users s k i) (id : U32) (name : Text) (order : Order) :
    ∃ s', s.load users id name order = some s' ∧
      ∀ i, Agrees users s' (k.step (registered users) (.load id name order)) i := by
  cases h id with
  | here c client caller _ _ =>
      refine ⟨s, by rw [System.load, client]; rfl, ?_⟩
      rw [Kept.step, caller]
      exact h
  | away client caller ignored =>
      obtain ⟨c, hload, hc⟩ := load_loaded name (order.val (selectQuery users s.ignores id))
      have hset : c.ignored = stored users s.ignores id :=
        hc.ignored.trans (nameSet_perm (order.property _))
      refine ⟨{ s with clients := Function.update s.clients id (some c) }, ?_, fun i => ?_⟩
      · rw [System.load, client]
        show Option.map _ (Session.load name _) = _
        rw [hload, Option.map_some]
      · have hcaller : k.step (registered users) (.load id name order)
            = { k with caller := Function.update k.caller id (some name) } := by
          rw [Kept.step, caller]
          rfl
        rw [hcaller]
        by_cases hi : i = id
        · subst hi
          refine .here c (Function.update_self ..) ?_ ⟨hc.toListed, ?_, .inr hc.fresh⟩
            (hset.trans ignored)
          · rw [hc.name]
            exact Function.update_self ..
          · show stored users s.ignores i = c.ignored ∩ registered users
            rw [hset]
            exact (Finset.inter_eq_left.mpr (stored_subset users _ _)).symm
        · exact (h i).frame (Function.update_of_ne hi ..) rfl (Function.update_of_ne hi ..) rfl

/-- **A client logs out.** -/
lemma leave_agrees (h : ∀ i, Agrees users s k i) (id : U32) :
    ∃ s', s.leave users unique id = some s' ∧
      ∀ i, Agrees users s' (k.step (registered users) (.leave id)) i := by
  cases h id with
  | away client caller _ =>
      refine ⟨s, by rw [System.leave, client]; rfl, fun i => (h i).frame rfl rfl ?_ ?_⟩
      · show Function.update (k.edit id _).caller id none i = k.caller i
        rw [edit_away caller, ← caller, Function.update_eq_self]
      · exact congrFun (congrArg Kept.ignored (edit_away caller _)) i
  | here c client caller keeps ignored =>
      obtain ⟨c', ignores', hrun, hleaves⟩ := keeps.update unique
      refine ⟨⟨ignores', Function.update s.clients id none⟩, ?_, fun i => ?_⟩
      · rw [System.leave, client]
        show Option.map _ (c.update users unique id s.ignores) = _
        rw [hrun, Option.map_some]
      · have hstep : k.step (registered users) (.leave id)
            = ⟨Function.update k.ignored id (k.ignored id ∩ registered users),
              Function.update k.caller id none⟩ := by
          rw [Kept.step, edit_here caller]
        rw [hstep]
        by_cases hi : i = id
        · subst hi
          refine .away (Function.update_self ..) (Function.update_self ..) ?_
          show _ = Function.update k.ignored i (k.ignored i ∩ registered users) i
          rw [Function.update_self, ← ignored, ← hleaves.ignored]
          exact hleaves.keeps.held
        · exact (h i).frame (Function.update_of_ne hi ..) (hleaves.others i hi)
            (Function.update_of_ne hi ..) (Function.update_of_ne hi ..)

/-- **One event** that is safe does what is to be done. -/
lemma step_refines (h : ∀ i, Agrees users s k i) (e : Deed) (hsafe : s.Safe e) :
    ∃ s', s.step users unique e = some s' ∧
      ∀ i, Agrees users s' (k.step (registered users) e) i := by
  cases e with
  | load id name order => exact load_agrees h id name order
  | add id ignoree =>
      exact serve_agrees h id _
        (fun name s => if strcasecmp name ignoree = 0 then s else insert (lower ignoree) s)
        fun c _ hc => hc.addIgnore unique ignoree
  | remove id ignoree =>
      exact serve_agrees h id _ (fun _ s => s.erase (lower ignoree))
        fun c hclient hc => hc.removeIgnore unique (hsafe c hclient)
  | clear id =>
      exact serve_agrees h id _ (fun _ _ => ∅)
        fun c hclient hc => hc.clearIgnores unique (hsafe c hclient)
  | update id =>
      have hserve := serve_agrees h id _ (fun _ s => s) fun c _ hc => hc.update unique
      rwa [edit_same] at hserve
  | leave id => exact leave_agrees h id

/-- An event that is not safe reads a string that was deleted. -/
lemma step_dead (h : ∀ i, Agrees users s k i) (e : Deed) (hsafe : ¬ s.Safe e) :
    s.step users unique e = none := by
  -- the client is logged in, and its function reads the string
  have hserve : ∀ {id : U32} {c : Session} {f : Session → Option (Session × Ignores)},
      s.clients id = some c → f c = none → s.serve id f = none := by
    intro id c f hclient hf
    rw [System.serve, hclient]
    show Option.map _ (f c) = none
    rw [hf, Option.map_none]
  have hkeeps : ∀ {id : U32} {c : Session}, s.clients id = some c →
      Keeps users (stored users s.ignores id) c := by
    intro id c hclient
    cases h id with
    | away client _ _ =>
        rw [client] at hclient
        cases hclient
    | here c' client _ keeps _ => exact Option.some.inj (client.symm.trans hclient) ▸ keeps
  cases e with
  | remove id ignoree =>
      simp only [System.Safe, not_forall] at hsafe
      obtain ⟨c, hclient, hfind, htodo⟩ := hsafe
      exact hserve hclient ((hkeeps hclient).removeIgnore_dead unique hfind htodo)
  | clear id =>
      simp only [System.Safe, not_forall] at hsafe
      obtain ⟨c, hclient, hnames, htodo⟩ := hsafe
      exact hserve hclient ((hkeeps hclient).clearIgnores_dead unique hnames htodo)
  | load id name order => exact absurd trivial hsafe
  | add id ignoree => exact absurd trivial hsafe
  | update id => exact absurd trivial hsafe
  | leave id => exact absurd trivial hsafe

/-- **Ignore lists are kept**, over every sequence of sessions of any users, from every table. As
long as no client removes a name that was loaded before anything was written, every user ignores
what it is to: what it added and did not remove, in this session or an earlier one, but for the
names of nobody, which are forgotten when it logs out. If one does, a string is read that was
deleted. -/
theorem sessions_persist (users : Users) (unique : Bool) (ignores : Ignores) (es : List Deed) :
    (Runs.run (System.step users unique) ⟨ignores, fun _ => none⟩ es = none ↔
      ¬ Runs.Always (System.step users unique) System.Safe ⟨ignores, fun _ => none⟩ es) ∧
    ∀ s, Runs.run (System.step users unique) ⟨ignores, fun _ => none⟩ es = some s → ∀ id,
      s.ignored users id
        = some ((es.foldl (Kept.step (registered users))
            ⟨stored users ignores, fun _ => none⟩).ignored id) := by
  have hnew : ∀ i, Agrees users ⟨ignores, fun _ => none⟩ ⟨stored users ignores, fun _ => none⟩ i :=
    fun _ => .away rfl rfl rfl
  have hrun := @Runs.run_refines _ _ (System.step users unique) _
    (fun s k => ∀ i, Agrees users s k i) System.Safe (Kept.step (registered users))
    (fun s k e h => step_refines h e) (fun s k e h => step_dead h e) _ _ hnew es
  rcases hrun with ⟨halways, s', hs', hagrees⟩ | ⟨hnot, hnone⟩
  · rw [hs']
    refine ⟨iff_of_false nofun (not_not.mpr halways), fun s heq id => ?_⟩
    exact Option.some.inj heq ▸ (hagrees id).ignored
  · rw [hnone]
    exact ⟨iff_of_true rfl hnot, nofun⟩

end Ignore

end Napd
