import Napd.Basic

/-!
The `PollSet` of `pollset.hh`: a table for `poll(2)`, and for each descriptor the place of its
entry in the table.

* `PollSet`: the fields of the class. The arrays have as many cells as there were descriptors
  when the set was made; an access outside of them is a fault (`none`).
* `watch`, `poll`, `ready`: as in the source. Neither array is ever cleared: `poll` only sets
  the size back, and what an earlier round left stays where it is.
* `Round`, `round`: the sockets that are watched, in order, and what the kernel reports.
* `Reports`: what the set says after a round; `rounds_report`: over every run of rounds, a
  question about a socket that was watched in the last one is answered with what the kernel
  reported for it there.
-/

namespace Napd

/-- `struct pollfd`. -/
structure Pollfd where
  fd : ℤ
  events : U16
  revents : U16

/-- `PollSet`. The size never exceeds that of the table, so that it does not wrap. -/
structure PollSet where
  index : List ℕ
  table : List Pollfd
  size : ℕ

namespace PollSet

/-- `POLLIN` and `POLLOUT`. -/
def POLLIN : U16 := 1
def POLLOUT : U16 := 4

/-- Store in a cell of an array. -/
def put {α : Type} (l : List α) (i : ℕ) (x : α) : Option (List α) :=
  if i < l.length then some (l.set i x) else none

/-- `watch`, for the descriptor of a socket. -/
def watch (p : PollSet) (fd : ℤ) (events : U16) : Option PollSet := do
  let table ← put p.table p.size ⟨fd, events, 0⟩
  let i ← fd.toNat?
  let index ← put p.index i p.size
  return ⟨index, table, p.size + 1⟩

/-- `ready`. -/
def ready (p : PollSet) (fd : ℤ) (events : U16) : Option Bool := do
  let i ← fd.toNat?
  let n ← p.index[i]?
  let e ← p.table[n]?
  return e.revents &&& events != 0

/-- `can_read` and `can_write`. -/
def can_read (p : PollSet) (fd : ℤ) : Option Bool := p.ready fd POLLIN
def can_write (p : PollSet) (fd : ℤ) : Option Bool := p.ready fd POLLOUT

/-- `poll(table, size)` with what it reports for each entry; the size is set back, also when
`poll` then throws. -/
def poll (p : PollSet) (revents : ℕ → U16) : PollSet where
  index := p.index
  table := p.table.mapIdx fun n e => if n < p.size then { e with revents := revents n } else e
  size := 0

/-- What is watched before a call of `poll`, and what the kernel reports for each entry. -/
structure Round where
  watched : List (ℤ × U16)
  revents : ℕ → U16

/-- Successive calls of `watch`. -/
def watchAll (p : PollSet) : List (ℤ × U16) → Option PollSet
  | [] => some p
  | (fd, events) :: watched => do
      let p ← p.watch fd events
      p.watchAll watched

/-- The calls of `watch`, then `poll`. -/
def round (p : PollSet) (r : Round) : Option PollSet :=
  (p.watchAll r.watched).map fun p => p.poll r.revents

/-- Successive rounds. -/
def rounds (p : PollSet) : List Round → Option PollSet
  | [] => some p
  | r :: rs => do
      let p ← p.round r
      p.rounds rs

/-! ### One round -/

/-- The arrays have `cap` cells. -/
structure Cells (cap : ℕ) (p : PollSet) : Prop where
  index : p.index.length = cap
  table : p.table.length = cap

/-- A descriptor that has a cell. -/
def InTable (cap : ℕ) (fd : ℤ) : Prop := 0 ≤ fd ∧ fd < cap

/-- A round that stays within the arrays. -/
def Fits (cap : ℕ) (r : Round) : Prop :=
  r.watched.length ≤ cap ∧ ∀ w ∈ r.watched, InTable cap w.1

instance (cap : ℕ) (fd : ℤ) : Decidable (InTable cap fd) := inferInstanceAs (Decidable (_ ∧ _))

instance (cap : ℕ) (r : Round) : Decidable (Fits cap r) := inferInstanceAs (Decidable (_ ∧ _))

lemma put_of_lt {α : Type} {l : List α} {i : ℕ} (h : i < l.length) (x : α) :
    put l i x = some (l.set i x) := if_pos h

lemma toNat?_of_inTable {cap : ℕ} {fd : ℤ} (h : InTable cap fd) :
    fd.toNat? = some fd.toNat ∧ fd.toNat < cap := by
  obtain ⟨hpos, hlt⟩ := h
  refine ⟨?_, by omega⟩
  obtain ⟨n, rfl⟩ := Int.eq_ofNat_of_zero_le hpos
  rfl

/-- `watch` stays within the arrays exactly when there is a cell in each of them. -/
lemma watch_eq {cap : ℕ} {p : PollSet} (h : Cells cap p) (fd : ℤ) (events : U16) :
    (p.size < cap ∧ InTable cap fd →
      p.watch fd events = some
        ⟨p.index.set fd.toNat p.size, p.table.set p.size ⟨fd, events, 0⟩, p.size + 1⟩) ∧
    (¬(p.size < cap ∧ InTable cap fd) → p.watch fd events = none) := by
  constructor
  · rintro ⟨hsize, hfd⟩
    obtain ⟨hnat, hlt⟩ := toNat?_of_inTable hfd
    rw [watch, put_of_lt (by rw [h.table]; exact hsize), hnat]
    simp only [Option.bind_eq_bind, Option.bind_some]
    rw [put_of_lt (by rw [h.index]; exact hlt)]
    rfl
  · intro hnot
    by_cases hsize : p.size < cap
    swap
    · rw [watch, put, if_neg (by rw [h.table]; exact hsize)]
      rfl
    rw [watch, put_of_lt (by rw [h.table]; exact hsize)]
    have hfd : ¬InTable cap fd := fun hfd => hnot ⟨hsize, hfd⟩
    cases fd with
    | negSucc n => rfl
    | ofNat n =>
        have hlt : ¬n < cap := fun hlt => hfd ⟨Int.natCast_nonneg n, Int.ofNat_lt.mpr hlt⟩
        show ((put p.index n p.size).bind _) = none
        rw [put, if_neg (by rw [h.index]; exact hlt)]
        rfl

/-- The last entry of a descriptor among those that were watched. -/
def LastAt (watched : List (ℤ × U16)) (n : ℕ) (fd : ℤ) : Prop :=
  (watched[n]?).map Prod.fst = some fd ∧
    ∀ m, n < m → (watched[m]?).map Prod.fst ≠ some fd

/-- What was watched so far in a round, and where its last entries are. -/
structure Watching (cap : ℕ) (p : PollSet) (watched : List (ℤ × U16)) : Prop where
  cells : Cells cap p
  size : p.size = watched.length
  last : ∀ (n : ℕ) (fd : ℤ), LastAt watched n fd → p.index[fd.toNat]? = some n

/-- **One `watch`**: the entry is the last one of its descriptor; those of the other descriptors
stay where they are. -/
lemma Watching.snoc {cap : ℕ} {p p' : PollSet} {watched : List (ℤ × U16)} {fd : ℤ} {events : U16}
    (h : Watching cap p watched) (hin : ∀ w ∈ watched, InTable cap w.1)
    (hwatch : p.watch fd events = some p') : Watching cap p' (watched ++ [(fd, events)]) := by
  have hfits : p.size < cap ∧ InTable cap fd := by
    by_contra hnot
    rw [(watch_eq h.cells fd events).2 hnot] at hwatch
    cases hwatch
  obtain ⟨hsize, hfd⟩ := hfits
  have hlt := (toNat?_of_inTable hfd).2
  rw [(watch_eq h.cells fd events).1 ⟨hsize, hfd⟩] at hwatch
  obtain rfl := Option.some.inj hwatch
  refine ⟨⟨?_, ?_⟩, ?_, ?_⟩
  · rw [List.length_set, h.cells.index]
  · rw [List.length_set, h.cells.table]
  · rw [List.length_append, h.size]
    rfl
  · rintro n fd' ⟨hn, hlast⟩
    show (p.index.set fd.toNat p.size)[fd'.toNat]? = some n
    rcases Nat.lt_trichotomy n watched.length with hlt' | rfl | hgt
    · -- an entry of another descriptor
      rw [List.getElem?_append_left hlt'] at hn
      have hne : fd' ≠ fd := by
        rintro rfl
        exact hlast watched.length hlt' (by simp)
      obtain ⟨w, hw, rfl⟩ := Option.map_eq_some_iff.mp hn
      have hw' : InTable cap w.1 := hin w (List.mem_of_getElem? hw)
      have hnat : fd.toNat ≠ w.1.toNat := fun heq => hne (by
        have h₁ := Int.toNat_of_nonneg hfd.1
        have h₂ := Int.toNat_of_nonneg hw'.1
        omega)
      rw [List.getElem?_set_ne hnat]
      refine h.last n w.1 ⟨hn, fun m hm hsome => ?_⟩
      have hm' : m < watched.length := by
        obtain ⟨v, hv, -⟩ := Option.map_eq_some_iff.mp hsome
        exact (List.getElem?_eq_some_iff.mp hv).1
      exact hlast m hm (by rw [List.getElem?_append_left hm']; exact hsome)
    · -- the entry that was just made
      simp only [List.getElem?_append_right le_rfl, Nat.sub_self, List.getElem?_cons_zero,
        Option.map_some, Option.some.injEq] at hn
      rw [← hn, List.getElem?_set_self (by rw [h.cells.index]; exact hlt), h.size]
    · rw [List.getElem?_eq_none (by simp; omega)] at hn
      cases hn

/-- Successive calls of `watch` stay within the arrays exactly when there are cells for all. -/
lemma watchAll_iff {cap : ℕ} {p : PollSet} {done : List (ℤ × U16)} (h : Watching cap p done)
    (hin : ∀ w ∈ done, InTable cap w.1) (hdone : done.length ≤ cap) (watched : List (ℤ × U16)) :
    ((∃ p', p.watchAll watched = some p') ↔
      (done ++ watched).length ≤ cap ∧ ∀ w ∈ watched, InTable cap w.1) ∧
    ∀ p', p.watchAll watched = some p' → Watching cap p' (done ++ watched) := by
  induction watched generalizing p done with
  | nil =>
      rw [List.append_nil]
      refine ⟨⟨fun _ => ⟨hdone, nofun⟩, fun _ => ⟨p, rfl⟩⟩, ?_⟩
      intro p' hp
      exact Option.some.inj hp ▸ h
  | cons w watched ih =>
      obtain ⟨fd, events⟩ := w
      by_cases hfits : p.size < cap ∧ InTable cap fd
      · have hwatch := (watch_eq h.cells fd events).1 hfits
        have hin' : ∀ w ∈ done ++ [(fd, events)], InTable cap w.1 :=
          List.forall_mem_append.mpr ⟨hin, List.forall_mem_singleton.mpr hfits.2⟩
        have hdone' : (done ++ [(fd, events)]).length ≤ cap := by
          have hsize := h.size ▸ hfits.1
          rw [List.length_append]
          exact hsize
        obtain ⟨hiff, hall⟩ := ih (h.snoc hin hwatch) hin' hdone'
        rw [List.append_assoc] at hiff hall
        refine ⟨?_, ?_⟩
        · rw [watchAll, hwatch]
          refine hiff.trans (and_congr_right fun _ => ?_)
          rw [List.forall_mem_cons]
          exact (and_iff_right hfits.2).symm
        · intro p' hp
          rw [watchAll, hwatch] at hp
          exact hall p' hp
      · have hnone : p.watchAll ((fd, events) :: watched) = none := by
          rw [watchAll, (watch_eq h.cells fd events).2 hfits]
          rfl
        refine ⟨⟨fun ⟨p', hp⟩ => absurd (hnone.symm.trans hp) nofun, ?_⟩, ?_⟩
        · rintro ⟨hlen, hwatched⟩
          refine absurd ⟨?_, (List.forall_mem_cons.mp hwatched).1⟩ hfits
          rw [List.length_append, List.length_cons] at hlen
          have hsize := h.size
          omega
        · intro p' hp
          exact absurd (hnone.symm.trans hp) nofun

/-! ### Runs of rounds -/

/-- What the set says after a round: for a socket that was watched, what the kernel reported for
its last entry. -/
structure Reports (cap : ℕ) (p : PollSet) (r : Round) : Prop where
  cells : Cells cap p
  size : p.size = 0
  ready : ∀ (n : ℕ) (fd : ℤ), LastAt r.watched n fd →
    ∀ events, p.ready fd events = some (r.revents n &&& events != 0)

/-- **One round**, from whatever an earlier one left. -/
lemma round_iff {cap : ℕ} {p : PollSet} (hcells : Cells cap p) (hsize : p.size = 0) (r : Round) :
    ((∃ p', p.round r = some p') ↔ Fits cap r) ∧
      ∀ p', p.round r = some p' → Reports cap p' r := by
  have hnil : Watching cap p [] := ⟨hcells, hsize, nofun⟩
  obtain ⟨hiff, hall⟩ := watchAll_iff hnil nofun (Nat.zero_le _) r.watched
  rw [List.nil_append] at hiff hall
  constructor
  · rw [Fits, ← hiff]
    constructor
    · rintro ⟨p', hp⟩
      obtain ⟨p₁, hwatch, -⟩ := Option.map_eq_some_iff.mp hp
      exact ⟨p₁, hwatch⟩
    · rintro ⟨p₁, hwatch⟩
      exact ⟨p₁.poll r.revents, by rw [round, hwatch, Option.map_some]⟩
  · intro p' hp
    obtain ⟨p₁, hwatch, rfl⟩ := Option.map_eq_some_iff.mp hp
    have hw := hall p₁ hwatch
    obtain ⟨hlen, hin⟩ := hiff.mp ⟨p₁, hwatch⟩
    refine ⟨⟨hw.cells.index, ?_⟩, rfl, ?_⟩
    · rw [poll, List.length_mapIdx]
      exact hw.cells.table
    · intro n fd hlast events
      obtain ⟨w, hget, rfl⟩ := Option.map_eq_some_iff.mp hlast.1
      have hnlt : n < r.watched.length := (List.getElem?_eq_some_iff.mp hget).1
      obtain ⟨hnat, -⟩ := toNat?_of_inTable (hin w (List.mem_of_getElem? hget))
      have hindex : (p₁.poll r.revents).index[w.1.toNat]? = some n := hw.last n w.1 hlast
      obtain ⟨e, he⟩ : ∃ e, p₁.table[n]? = some e :=
        ⟨_, List.getElem?_eq_getElem (by rw [hw.cells.table]; omega)⟩
      have htable : (p₁.poll r.revents).table[n]? = some { e with revents := r.revents n } := by
        rw [poll, List.getElem?_mapIdx, he, Option.map_some, if_pos (by rw [hw.size]; exact hnlt)]
      rw [PollSet.ready, hnat]
      simp only [Option.bind_eq_bind, Option.bind_some, hindex, htable]
      rfl

/-- **A `PollSet` answers for the round it was asked in.** Whatever the arrays held when they
were made, and over every run of rounds: no access is outside of them if and only if each round
watches no more sockets than there are cells, each with a descriptor that has a cell; and then
a question about a socket that was watched in the last round is answered with what the kernel
reported for its last entry there, whatever was watched before. -/
theorem rounds_report (p : PollSet) (cap : ℕ) (hcells : Cells cap p) (hsize : p.size = 0)
    (rs : List Round) (r : Round) :
    ((∃ p', p.rounds (rs ++ [r]) = some p') ↔ ∀ x ∈ rs ++ [r], Fits cap x) ∧
      ∀ p', p.rounds (rs ++ [r]) = some p' → Reports cap p' r := by
  induction rs generalizing p with
  | nil =>
      have hround : p.rounds ([] ++ [r]) = p.round r := by
        rw [List.nil_append, rounds]
        cases p.round r <;> rfl
      rw [hround, List.nil_append, List.forall_mem_singleton]
      exact round_iff hcells hsize r
  | cons r₁ rs ih =>
      obtain ⟨hiff, hall⟩ := round_iff hcells hsize r₁
      rw [List.cons_append, List.forall_mem_cons]
      cases hround : p.round r₁ with
      | none =>
          have hnone : p.rounds (r₁ :: (rs ++ [r])) = none := by
            rw [rounds, hround]
            rfl
          have hnot : ¬Fits cap r₁ := fun hfits => by
            obtain ⟨p', hp⟩ := hiff.mpr hfits
            exact absurd (hround.symm.trans hp) nofun
          rw [hnone]
          exact ⟨⟨nofun, fun h => absurd h.1 hnot⟩, nofun⟩
      | some p₁ =>
          have hreports := hall p₁ hround
          have hrest : p.rounds (r₁ :: (rs ++ [r])) = p₁.rounds (rs ++ [r]) := by
            rw [rounds, hround]
            rfl
          obtain ⟨hiff', hall'⟩ := ih p₁ hreports.cells hreports.size
          rw [hrest]
          exact ⟨hiff'.trans (and_iff_right (hiff.mp ⟨p₁, hround⟩)).symm, hall'⟩

/-- Three cells with something in them, and a descriptor that is watched in both rounds. -/
theorem rounds_report_again :
    ∃ p', PollSet.rounds ⟨[7, 7, 7], List.replicate 3 ⟨9, 9, 9⟩, 0⟩
        ([⟨[(1, 5), (2, 5)], fun _ => 4⟩] ++ [⟨[(2, 5), (0, 5)], fun n => .ofNat n⟩]) = some p' ∧
      Reports 3 p' ⟨[(2, 5), (0, 5)], fun n => .ofNat n⟩ := by
  obtain ⟨hiff, hall⟩ := rounds_report ⟨[7, 7, 7], List.replicate 3 ⟨9, 9, 9⟩, 0⟩ 3 ⟨rfl, rfl⟩ rfl
    [⟨[(1, 5), (2, 5)], fun _ => 4⟩] ⟨[(2, 5), (0, 5)], fun n => .ofNat n⟩
  obtain ⟨p', hp⟩ := hiff.mpr (by decide)
  exact ⟨p', hp, hall p' hp⟩

end PollSet

end Napd
