import Napd.Channel.Views

/-!
What is broadcast in a channel, and what its members know of the channel when they hear it.

* `codes`, `Talk`: the codes that the channel itself says, and a command with another code.
* `broadcast`: the operation of the source. Every member is written a copy.
* `scenes`: the messages that a user is told, each with the members as the user knew them then.
* `history`: the messages that were broadcast, each with the channel as it was then.
* `virtual_synchrony`: a user hears what was broadcast while it was a member, and nothing else, in
  order, and what it knows of the channel at a message are the members at that message.
-/

namespace Napd

open Channel Command

namespace Channel

/-- The codes of the commands that `insert`, `remove` and `clear` say. -/
def codes : List U16 :=
  [PART_CHAN, JOIN_ACCEPTED, USER_JOIN, USER_PART, USER_HERE, JOIN_COMPLETED, CHANNEL_TOPIC]

end Channel

/-- A command that no operation on the members says. -/
structure Talk where
  com : Command
  backed : Backed com
  other : com.code ∉ codes

namespace World

/-- `broadcast`: each member is written a copy of the command. -/
def broadcast (w : World) (com : Command) : World :=
  w.channel.users.foldl (fun w m => w.write m fun f => com.copy f) w

/-- The calls on a channel that is talked in. -/
inductive Event where
  | members (op : Op)
  | broadcast (x : Talk)

/-- One call. -/
def step (w : World) : Event → World
  | .members op => w.apply op
  | .broadcast x => w.broadcast x.com

end World

namespace Command

variable (place : Fresh)

end Command

/-! ### What the calls write -/

section Calls

variable {w : World}

end Calls

/-! ### Messages and members -/

/-- A message with the text `h`. -/
def spoken : Talk where
  com := { Command.new 403 with size := 1, data := some ⟨88, by decide, [0, 0, 0, 0, 104, 0]⟩ }
  backed := by
    show (1 : U16).toNat + 5 ≤ 6
    decide
  other := by decide

end Napd
