import Napd.Ignore.Todo

/-!
The tables that ignore lists are kept in, and the queries of `db.cc` on them.

* `UserRow`, `Users`, `Ignores`: the tables `users` and `ignores`.
* `insertQuery`, `deleteQuery`, `selectQuery`: the queries of `UpdateIgnores` and `LoadIgnores`.
* `stored`: the names that the database holds for a user, case aside; `registered`: all names that
  it can hold. `stored_insertQuery`, `stored_deleteQuery`: what the queries make of them.
-/

namespace Napd

namespace Ignore

/-- `UPPER`. -/
def toupper (b : U8) : U8 := if 97 ≤ b ∧ b ≤ 122 then b - 32 else b

/-- The bytes of a name in upper case. -/
def upper (s : Text) : List U8 := s.val.map toupper

/-- A row of `users`. -/
structure UserRow where
  id : U32
  username : Text
  ucasename : List U8
  ucase : ucasename = upper username

/-- The table `users`, in which `id` and `ucasename` are unique. -/
structure Users where
  rows : List UserRow
  ids : (rows.map UserRow.id).Nodup
  names : (rows.map UserRow.ucasename).Nodup

/-- The table `ignores`: `id` and `idtoignore`. -/
abbrev Ignores := List (U32 × U32)

/-- `SELECT id FROM users WHERE ucasename = UPPER(:nametoignore)`. -/
def Users.idsOf (users : Users) (nametoignore : Text) : List U32 :=
  (users.rows.filter fun r => r.ucasename = upper nametoignore).map UserRow.id

/-- `INSERT INTO ignores (id, idtoignore) SELECT :ignorerID, id FROM users WHERE …`. With a
constraint that rows are unique, the query fails where there is one already. -/
def insertQuery (users : Users) (unique : Bool) (ignores : Ignores) (ignorerID : U32)
    (nametoignore : Text) : Ignores :=
  let rows := (users.idsOf nametoignore).map fun i => (ignorerID, i)
  if unique ∧ ∃ x ∈ rows, x ∈ ignores then ignores else ignores ++ rows

/-- `DELETE FROM ignores WHERE id = :ignorerID AND idtoignore = (SELECT …)`. -/
def deleteQuery (users : Users) (ignores : Ignores) (ignorerID : U32) (nametoignore : Text) :
    Ignores :=
  ignores.filter fun x => ¬(x.1 = ignorerID ∧ x.2 ∈ users.idsOf nametoignore)

/-- `SELECT username FROM ignores, users WHERE ignores.id = :id AND users.id = ignores.idtoignore`,
in one of the orders in which the rows may come. -/
def selectQuery (users : Users) (ignores : Ignores) (id : U32) : List Text :=
  (ignores.filter fun x => x.1 = id).flatMap fun x =>
    (users.rows.filter fun r => r.id = x.2).map UserRow.username

/-- The names that the database holds for a user, case aside. -/
def stored (users : Users) (ignores : Ignores) (id : U32) : Finset (List U8) :=
  nameSet (selectQuery users ignores id)

/-- The names of all users, case aside. -/
def registered (users : Users) : Finset (List U8) := nameSet (users.rows.map UserRow.username)

/-! ### Names in upper case -/

lemma tolower_toNat (b : U8) :
    (tolower b).toNat = if 65 ≤ b.toNat ∧ b.toNat ≤ 90 then b.toNat + 32 else b.toNat := by
  have hrange : 65 ≤ b ∧ b ≤ 90 ↔ 65 ≤ b.toNat ∧ b.toNat ≤ 90 := Iff.rfl
  rw [tolower]
  by_cases h : 65 ≤ b.toNat ∧ b.toNat ≤ 90
  · rw [if_pos (hrange.mpr h), if_pos h, UInt8.toNat_add]
    exact Nat.mod_eq_of_lt (by omega : b.toNat + 32 < 256)
  · rw [if_neg (mt hrange.mp h), if_neg h]

lemma toupper_toNat (b : U8) :
    (toupper b).toNat = if 97 ≤ b.toNat ∧ b.toNat ≤ 122 then b.toNat - 32 else b.toNat := by
  have hrange : 97 ≤ b ∧ b ≤ 122 ↔ 97 ≤ b.toNat ∧ b.toNat ≤ 122 := Iff.rfl
  rw [toupper]
  by_cases h : 97 ≤ b.toNat ∧ b.toNat ≤ 122
  · rw [if_pos (hrange.mpr h), if_pos h]
    exact UInt8.toNat_sub_of_le b 32 (UInt8.le_iff_toNat_le.mpr (by omega : 32 ≤ b.toNat))
  · rw [if_neg (mt hrange.mp h), if_neg h]

lemma toupper_eq_iff (a b : U8) : toupper a = toupper b ↔ tolower a = tolower b := by
  rw [← UInt8.toNat_inj, ← UInt8.toNat_inj, toupper_toNat, toupper_toNat, tolower_toNat,
    tolower_toNat]
  split_ifs <;> omega

/-- The database compares names as `strcasecmp` does. -/
lemma upper_eq_iff (s t : Text) : upper s = upper t ↔ lower s = lower t := by
  have hlist : ∀ l m : List U8, l.map toupper = m.map toupper ↔ l.map tolower = m.map tolower := by
    intro l
    induction l with
    | nil =>
        intro m
        rw [List.map_nil, List.map_nil, List.nil_eq, List.nil_eq, List.map_eq_nil_iff,
          List.map_eq_nil_iff]
    | cons a l ih =>
        intro m
        cases m with
        | nil => exact iff_of_false (List.cons_ne_nil _ _) (List.cons_ne_nil _ _)
        | cons b m =>
            simp only [List.map_cons, List.cons.injEq, toupper_eq_iff, ih]
  exact hlist s.val t.val

/-! ### What is stored -/

variable (users : Users)

lemma mem_stored {ignores : Ignores} {id : U32} {a : List U8} :
    a ∈ stored users ignores id ↔ ∃ r ∈ users.rows, (id, r.id) ∈ ignores ∧
      lower r.username = a := by
  simp only [stored, nameSet, List.mem_toFinset, selectQuery, List.mem_map, List.mem_flatMap,
    List.mem_filter, decide_eq_true_iff]
  constructor
  · rintro ⟨-, ⟨⟨i, k⟩, ⟨hx, rfl⟩, r, ⟨hr, rfl⟩, rfl⟩, rfl⟩
    exact ⟨r, hr, hx, rfl⟩
  · rintro ⟨r, hr, hx, rfl⟩
    exact ⟨_, ⟨(id, r.id), ⟨hx, rfl⟩, r, ⟨hr, rfl⟩, rfl⟩, rfl⟩

lemma mem_registered {a : List U8} :
    a ∈ registered users ↔ ∃ r ∈ users.rows, lower r.username = a := by
  simp only [registered, nameSet, List.mem_toFinset, List.mem_map, exists_exists_and_eq_and]

/-- Only the names of users are stored. -/
lemma stored_subset (ignores : Ignores) (id : U32) :
    stored users ignores id ⊆ registered users := by
  intro a ha
  obtain ⟨r, hr, -, hlower⟩ := (mem_stored users).mp ha
  exact (mem_registered users).mpr ⟨r, hr, hlower⟩

lemma mem_idsOf {s : Text} {i : U32} :
    i ∈ users.idsOf s ↔ ∃ r ∈ users.rows, lower r.username = lower s ∧ r.id = i := by
  simp only [Users.idsOf, List.mem_map, List.mem_filter, decide_eq_true_iff, and_assoc]
  refine exists_congr fun r => and_congr_right fun _ => and_congr_left fun _ => ?_
  rw [r.ucase, upper_eq_iff]

/-- A row is found by its id. -/
lemma row_unique {r r' : UserRow} (hr : r ∈ users.rows) (hr' : r' ∈ users.rows)
    (h : r.id = r'.id) : r = r' := List.inj_on_of_nodup_map users.ids hr hr' h

/-- What an `INSERT` leaves in the table. -/
lemma mem_insertQuery {unique : Bool} {ignores : Ignores} {id : U32} {s : Text} {x : U32 × U32} :
    x ∈ insertQuery users unique ignores id s ↔
      x ∈ ignores ∨ x.1 = id ∧ x.2 ∈ users.idsOf s := by
  have hnew : x ∈ (users.idsOf s).map (fun i => (id, i)) ↔ x.1 = id ∧ x.2 ∈ users.idsOf s := by
    rw [List.mem_map]
    constructor
    · rintro ⟨i, hi, rfl⟩
      exact ⟨rfl, hi⟩
    · rintro ⟨rfl, hi⟩
      exact ⟨x.2, hi, rfl⟩
  rw [insertQuery]
  split_ifs with h
  · -- the query fails: the one row that it would add is there
    refine ⟨.inl, fun hx => hx.elim (fun hold => hold) fun hmem => ?_⟩
    obtain ⟨-, y, hy, hold⟩ := h
    obtain ⟨i, hi, rfl⟩ := List.mem_map.mp hy
    obtain ⟨r, hr, hlower, rfl⟩ := (mem_idsOf users).mp hi
    obtain ⟨r', hr', hlower', hid⟩ := (mem_idsOf users).mp hmem.2
    have hsame : r = r' := by
      refine List.inj_on_of_nodup_map users.names hr hr' ?_
      rw [r.ucase, r'.ucase, upper_eq_iff, hlower, hlower']
    have hxeq : x = (id, r.id) := Prod.ext hmem.1 (hsame ▸ hid).symm
    rwa [hxeq]
  · rw [List.mem_append, hnew]

/-- **An `INSERT`** stores the name if it is that of a user, and changes nothing else. -/
lemma stored_insertQuery (unique : Bool) (ignores : Ignores) (id k : U32) (s : Text) :
    stored users (insertQuery users unique ignores id s) k
      = if k = id ∧ lower s ∈ registered users then insert (lower s) (stored users ignores k)
        else stored users ignores k := by
  ext a
  simp only [mem_stored, mem_insertQuery, mem_idsOf]
  split_ifs with h
  · obtain ⟨rfl, hreg⟩ := h
    obtain ⟨u, hu, hlower⟩ := (mem_registered users).mp hreg
    rw [Finset.mem_insert, mem_stored]
    constructor
    · rintro ⟨r, hr, hold | ⟨-, r', hr', hlower', hid⟩, rfl⟩
      · exact .inr ⟨r, hr, hold, rfl⟩
      · obtain rfl := row_unique users hr' hr hid
        exact .inl hlower'
    · rintro (rfl | ⟨r, hr, hold, rfl⟩)
      · exact ⟨u, hu, .inr ⟨rfl, u, hu, hlower, rfl⟩, hlower⟩
      · exact ⟨r, hr, .inl hold, rfl⟩
  · rw [mem_stored]
    refine exists_congr fun r => and_congr_right fun hr => and_congr_left fun _ => ?_
    refine or_iff_left ?_
    rintro ⟨hk, r', hr', hlower', -⟩
    exact h ⟨hk, (mem_registered users).mpr ⟨r', hr', hlower'⟩⟩

/-- **A `DELETE`** takes the name away, and changes nothing else. -/
lemma stored_deleteQuery (ignores : Ignores) (id k : U32) (s : Text) :
    stored users (deleteQuery users ignores id s) k
      = if k = id then (stored users ignores k).erase (lower s) else stored users ignores k := by
  ext a
  simp only [mem_stored, deleteQuery, List.mem_filter, decide_eq_true_iff, mem_idsOf]
  split_ifs with h
  · subst h
    rw [Finset.mem_erase, mem_stored]
    constructor
    · rintro ⟨r, hr, ⟨hold, hnot⟩, rfl⟩
      exact ⟨fun heq => hnot ⟨rfl, r, hr, heq, rfl⟩, r, hr, hold, rfl⟩
    · rintro ⟨hne, r, hr, hold, rfl⟩
      refine ⟨r, hr, ⟨hold, ?_⟩, rfl⟩
      rintro ⟨-, r', hr', hlower', hid⟩
      obtain rfl := row_unique users hr' hr hid
      exact hne hlower'
  · rw [mem_stored]
    refine exists_congr fun r => and_congr_right fun hr => and_congr_left fun _ => ?_
    exact and_iff_left fun hdel => h hdel.1

end Ignore

end Napd
