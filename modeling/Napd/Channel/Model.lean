import Napd.Users
import Napd.Command.Model

/-!
Channels, `channel.cc`, and what their members are told.

* `Said`: what `SAY` is given, a code and the arguments that are packed into the command; the
  codes and arguments of `codes.hh`.
* `Channel`, `World`: a channel, and the commands that were written to each user. Users are
  compared as pointers are, by the whole record.
* `insert`, `remove`, `clear`: the operations of the source.
* `view`: the members as a user knows them from the commands that it was written.
-/

namespace Napd

/-- What is said to a user. -/
structure Said where
  code : U16
  args : List ArgData

/-- The command that `SAY` makes: `new Command(code)` and `PACK_COMMAND`; `none` if packing writes
outside the block. -/
def Said.command (m : Said) (f : Fresh) : Option Command :=
  Command.pack f (Command.new m.code) m.args

/-- `Channel`. The members are in the order of the map. -/
structure Channel where
  name : Text
  topic : Text
  members : List (Text × User)

/-- The channel, the memory that the commands to each user are made in, and the commands that were
written to each user, in order. -/
structure World where
  channel : Channel
  fresh : User → ℕ → Fresh
  log : User → List (Option Command)

namespace Channel

/-! ### The codes -/

def PART_CHAN : U16 := 401
def JOIN_ACCEPTED : U16 := 405
def USER_JOIN : U16 := 406
def USER_PART : U16 := 407
def USER_HERE : U16 := 408
def JOIN_COMPLETED : U16 := 409
def CHANNEL_TOPIC : U16 := 410

/-- A code with the arguments that tell of a member. -/
def memberArgs (code : U16) (c : Channel) (u : User) : Said :=
  ⟨code, [.string c.name, .string u.name, .integer 0, .integer (Int32.ofNat u.linespeed.toNat)]⟩

def USER_JOIN_ARGS : Channel → User → Said := memberArgs USER_JOIN
def USER_PART_ARGS : Channel → User → Said := memberArgs USER_PART
def USER_HERE_ARGS : Channel → User → Said := memberArgs USER_HERE
def PART_CHAN_ARGS (c : Channel) : Said := ⟨PART_CHAN, [.string c.name]⟩

/-! ### The map of the members -/

/-- The values of the map, in its order. -/
def users (c : Channel) : List User := c.members.map Prod.snd

/-- Keys that a `strimap` does not tell apart. -/
def equivalent (s t : Text) : Bool := !ltistr s t && !ltistr t s

/-- `find`. -/
def find (c : Channel) (name : Text) : Option User :=
  (c.members.find? fun p => equivalent p.1 name).map Prod.snd

/-- `members[name] = client`. -/
def assign (name : Text) (client : User) : List (Text × User) → List (Text × User)
  | [] => [(name, client)]
  | p :: ps =>
      if ltistr name p.1 then (name, client) :: p :: ps
      else if ltistr p.1 name then p :: assign name client ps
      else (p.1, client) :: ps

end Channel

namespace World

open Channel

/-- `User::write`: the command, which is made in fresh memory, is put into the log of the user. -/
def write (w : World) (u : User) (make : Fresh → Option Command) : World :=
  { w with log := fun v =>
      if v = u then w.log v ++ [make (w.fresh v (w.log v).length)] else w.log v }

/-- `SAY`. -/
def say (w : World) (u : User) (m : Said) : World := w.write u m.command

/-- The loop of `insert`: one member. -/
def greet (this : Channel) (client : User) (w : World) (m : User) : World :=
  let w := w.say client (USER_HERE_ARGS this m)
  if m ≠ client then w.say m (USER_JOIN_ARGS this client) else w

/-- `insert`. -/
def insert (w : World) (client : User) : World :=
  if (w.channel.find client.name).isSome then w
  else
    let this := { w.channel with members := assign client.name client w.channel.members }
    let w := { w with channel := this }
    let w := w.say client ⟨JOIN_ACCEPTED, [.string this.name]⟩
    let w := this.users.foldl (greet this client) w
    let w := w.say client ⟨JOIN_COMPLETED, [.string this.name]⟩
    w.say client ⟨CHANNEL_TOPIC, [.string this.name, .string this.topic]⟩

/-- `remove`: the first element with this value. -/
def remove (w : World) (client : User) : World :=
  if client ∈ w.channel.users then
    let this := { w.channel with members := w.channel.members.eraseP fun p => p.2 = client }
    let w := { w with channel := this }
    let w := this.users.foldl (fun w m => w.say m (USER_PART_ARGS this client)) w
    w.say client (PART_CHAN_ARGS this)
  else w

/-- `clear`. -/
def clear (w : World) : World :=
  let this := w.channel
  let w := this.users.foldl (fun w m => w.say m (PART_CHAN_ARGS this)) w
  { w with channel := { this with members := [] } }

/-- The calls. -/
inductive Op where
  | insert (client : User)
  | remove (client : User)
  | clear

def apply (w : World) : Op → World
  | .insert client => w.insert client
  | .remove client => w.remove client
  | .clear => w.clear

/-- `Channel(name, topic)`, and nothing said yet. -/
def new (name topic : Text) (fresh : User → ℕ → Fresh) : World :=
  ⟨⟨name, topic, []⟩, fresh, fun _ => []⟩

/-- The state after some calls. -/
def run (w : World) (ops : List Op) : World := ops.foldl apply w

end World

/-! ### What a user knows of a channel -/

namespace Command

open Channel

/-- The user that a command tells of: what `UNPACK_COMMAND` gets as its second argument. -/
def user (place : Fresh) (com : Command) : Option Text := do
  let m := Message.received com.code place.addr place.addr_ne com.payload
  let (vs, m) ← m.unpack [.string, .string, .integer, .integer]
  match vs.map (Option.map m.fetch) with
  | _ :: some (.string s) :: _ => some s
  | _ => none

/-- A user that is out of the channel knows of no members. Otherwise it takes a command in. -/
def learn (place : Fresh) (names : Option (List Text)) (com : Command) : Option (List Text) :=
  if com.code = JOIN_ACCEPTED then some []
  else if com.code = USER_HERE ∨ com.code = USER_JOIN then
    names.map fun l => l ++ (com.user place).toList
  else if com.code = USER_PART then
    names.map fun l => l.filter fun n => (com.user place).all fun t => strcasecmp n t ≠ 0
  else if com.code = PART_CHAN then none
  else names

/-- The members as a user knows them from its commands, which it unpacks in some memory; `none` if
it is out of the channel. -/
def view (place : Fresh) (coms : List Command) : Option (List Text) :=
  coms.foldl (learn place) none

end Command

end Napd
