import Napd.Channel.Views
import Napd.Command.Text

/-!
The operations of a channel when a `User::write` throws.

* `Throwing`: the operations again, where the write with a given number throws, and with it
  the operation.
* `writes`: what an operation writes to whom, in order; `sayAll_ok` and `sayAll_error` say how
  far it comes.
* `Survives`: an exception leaves the members as they were, or all the others have been told.
* `survives_iff`: `clear` always survives, `insert` and `remove` where nothing is left to be
  written to another member.
-/

namespace Napd

open Channel World

/-! ### The operations -/

namespace Throwing

/-- An exception, with the state it leaves and the user whose `write` threw. -/
abbrev Attempt := Except (World × User)

/-- `SAY`, where `s.2` writes more succeed, and then one throws. -/
def say (s : World × ℕ) (u : User) (m : Said) : Attempt (World × ℕ) :=
  match s.2 with
  | 0 => .error (s.1, u)
  | left + 1 => .ok (s.1.say u m, left)

/-- The loop of `insert`: one member. -/
def greet (this : Channel) (client : User) (s : World × ℕ) (m : User) : Attempt (World × ℕ) := do
  let s ← say s client (USER_HERE_ARGS this m)
  if m ≠ client then say s m (USER_JOIN_ARGS this client) else return s

/-- `insert`, whose write number `n` throws. -/
def insert (w : World) (client : User) (n : ℕ) : Attempt World :=
  if (w.channel.find client.name).isSome then return w
  else do
    let this := { w.channel with members := assign client.name client w.channel.members }
    let s ← say ({ w with channel := this }, n) client ⟨JOIN_ACCEPTED, [.string this.name]⟩
    let s ← this.users.foldlM (greet this client) s
    let s ← say s client ⟨JOIN_COMPLETED, [.string this.name]⟩
    let s ← say s client ⟨CHANNEL_TOPIC, [.string this.name, .string this.topic]⟩
    return s.1

/-- `remove`. -/
def remove (w : World) (client : User) (n : ℕ) : Attempt World :=
  if client ∈ w.channel.users then do
    let this := { w.channel with members := w.channel.members.eraseP fun p => p.2 = client }
    let s ← this.users.foldlM (fun s m => say s m (USER_PART_ARGS this client))
      ({ w with channel := this }, n)
    let s ← say s client (PART_CHAN_ARGS this)
    return s.1
  else return w

/-- `clear`. -/
def clear (w : World) (n : ℕ) : Attempt World := do
  let this := w.channel
  let s ← this.users.foldlM (fun s m => say s m (PART_CHAN_ARGS this)) (w, n)
  return { s.1 with channel := { this with members := [] } }

def apply (w : World) (n : ℕ) : Op → Attempt World
  | .insert client => insert w client n
  | .remove client => remove w client n
  | .clear => clear w n

end Throwing

/-! ### What is written -/

/-- The writes of the loop of `insert` for one member. -/
def greetWrites (this : Channel) (client m : User) : List (User × Said) :=
  (client, USER_HERE_ARGS this m) :: if m ≠ client then [(m, USER_JOIN_ARGS this client)] else []

/-- The writes of an operation. -/
def writes (w : World) : Op → List (User × Said)
  | .insert client =>
      if (w.channel.find client.name).isSome then []
      else
        (client, ⟨JOIN_ACCEPTED, [.string w.channel.name]⟩)
          :: ((joined w client).users.flatMap (greetWrites (joined w client) client)
            ++ [(client, ⟨JOIN_COMPLETED, [.string w.channel.name]⟩),
              (client, ⟨CHANNEL_TOPIC, [.string w.channel.name, .string w.channel.topic]⟩)])
  | .remove client =>
      if client ∈ w.channel.users then
        ((parted w client).users.map fun m => (m, USER_PART_ARGS (parted w client) client))
          ++ [(client, PART_CHAN_ARGS (parted w client))]
      else []
  | .clear => w.channel.users.map fun m => (m, PART_CHAN_ARGS w.channel)

/-- An operation that exits by an exception of its write number `n` leaves the members as they
were; or they are as the operation would have left them, and each one but the user whose
`write` threw has been told all that the operation tells it. -/
def Survives (w : World) (op : Op) (n : ℕ) : Prop :=
  ∀ w' u, Throwing.apply w n op = .error (w', u) →
    w'.channel.members = w.channel.members ∨
    w'.channel.members = (w.apply op).channel.members ∧
      ∀ v ∈ (w.apply op).channel.users, v ≠ u → w'.log v = (w.apply op).log v

/-- From the write that throws on, `insert` writes to the new member only, and `remove` to no
two users that are still members. -/
def Settled (w : World) (op : Op) (n : ℕ) : Prop :=
  match op with
  | .insert client => ∀ x ∈ (writes w op).drop n, x.1 = client
  | .remove client => ∀ x ∈ (writes w op).drop n, ∀ y ∈ (writes w op).drop n,
      x.1 ∈ (parted w client).users → y.1 ∈ (parted w client).users → x.1 = y.1
  | .clear => True

/-! ### A list of writes -/

/-- All of the writes. -/
def sayAll (w : World) (l : List (User × Said)) : World := l.foldl (fun w x => w.say x.1 x.2) w

lemma channel_sayAll (w : World) (l : List (User × Said)) :
    (sayAll w l).channel = w.channel := by
  induction l generalizing w with
  | nil => rfl
  | cons x l ih =>
      rw [sayAll, List.foldl_cons]
      exact ih _

lemma tells_sayAll (w : World) (l : List (User × Said)) (v : User) :
    Tells w (sayAll w l) v (l.flatMap fun x => if v = x.1 then [x.2] else []) := by
  induction l generalizing w with
  | nil => exact tells_nil w v
  | cons x l ih =>
      rw [sayAll, List.foldl_cons, List.flatMap_cons]
      exact (tells_say w x.1 x.2 v).append (ih _)

/-- A user has been told all of the writes after the first `n` exactly when the others are not
to it. -/
lemma log_take_eq_iff (w : World) (l : List (User × Said)) (n : ℕ) (v : User) :
    (sayAll w (l.take n)).log v = (sayAll w l).log v ↔ ∀ x ∈ l.drop n, x.1 ≠ v := by
  have hsplit : (l.flatMap fun x => if v = x.1 then [x.2] else [])
      = ((l.take n).flatMap fun x => if v = x.1 then [x.2] else [])
        ++ (l.drop n).flatMap fun x => if v = x.1 then [x.2] else [] := by
    rw [← List.flatMap_append, List.take_append_drop]
  rw [(tells_sayAll w _ v).log, (tells_sayAll w l v).log, hsplit, delivered_append,
    ← List.append_assoc, List.self_eq_append_right, ← List.length_eq_zero_iff, delivered_length,
    List.length_eq_zero_iff, List.flatMap_eq_nil_iff]
  refine forall₂_congr fun x _ => ?_
  by_cases hv : v = x.1
  · simp [hv]
  · simp [hv, Ne.symm hv]

namespace Throwing

/-- All of the writes. -/
def sayAll (s : World × ℕ) (l : List (User × Said)) : Attempt (World × ℕ) :=
  l.foldlM (fun s x => say s x.1 x.2) s

lemma sayAll_nil (s : World × ℕ) : sayAll s [] = pure s := rfl

lemma sayAll_cons (s : World × ℕ) (x : User × Said) (l : List (User × Said)) :
    sayAll s (x :: l) = say s x.1 x.2 >>= fun s => sayAll s l := rfl

lemma sayAll_append (s : World × ℕ) (l₁ l₂ : List (User × Said)) :
    sayAll s (l₁ ++ l₂) = sayAll s l₁ >>= fun s => sayAll s l₂ := List.foldlM_append

/-- A loop whose body makes the writes `out m`. -/
lemma foldlM_eq_sayAll {body : World × ℕ → User → Attempt (World × ℕ)}
    {out : User → List (User × Said)} (hbody : ∀ s m, body s m = sayAll s (out m))
    (us : List User) (s : World × ℕ) : us.foldlM body s = sayAll s (us.flatMap out) := by
  induction us generalizing s with
  | nil => rfl
  | cons m us ih =>
      rw [List.foldlM_cons, List.flatMap_cons, sayAll_append, hbody]
      exact congrArg _ (funext ih)

/-- A loop that says the same to every user. -/
lemma foldlM_say (c : Said) (us : List User) (s : World × ℕ) :
    us.foldlM (fun s m => say s m c) s = sayAll s (us.map fun m => (m, c)) := by
  have hbody : ∀ (s : World × ℕ) m, say s m c = sayAll s [(m, c)] := fun s m => (bind_pure _).symm
  rw [foldlM_eq_sayAll hbody, List.map_eq_flatMap]

/-- Where enough writes succeed, all are made. -/
lemma sayAll_ok {n : ℕ} {l : List (User × Said)} (w : World) (h : l.length ≤ n) :
    ∃ left, sayAll (w, n) l = .ok (Napd.sayAll w l, left) := by
  induction l generalizing w n with
  | nil => exact ⟨n, rfl⟩
  | cons x l ih =>
      obtain ⟨k, rfl⟩ := Nat.exists_eq_succ_of_ne_zero (by simp at h; omega : n ≠ 0)
      exact ih (w.say x.1 x.2) (Nat.succ_le_succ_iff.mp h)

/-- Otherwise the first `n` are made, and the next one throws. -/
lemma sayAll_error {n : ℕ} {l : List (User × Said)} {x : User × Said} (w : World)
    (h : l[n]? = some x) : sayAll (w, n) l = .error (Napd.sayAll w (l.take n), x.1) := by
  induction l generalizing w n with
  | nil => simp at h
  | cons y l ih =>
      cases n with
      | zero =>
          obtain rfl := Option.some.inj h
          rfl
      | succ n => exact ih (w.say y.1 y.2) h

/-! ### The operations as lists of writes -/

lemma greet_eq (this : Channel) (client : User) (s : World × ℕ) (m : User) :
    greet this client s m = sayAll s (greetWrites this client m) := by
  rw [greet, greetWrites, sayAll_cons]
  by_cases hm : m = client
  · simp only [ne_eq, hm, not_true_eq_false, if_false, sayAll_nil]
  · simp only [ne_eq, hm, not_false_eq_true, if_true, sayAll_cons, sayAll_nil, bind_pure]

lemma insert_eq {w : World} {client : User} (h : w.channel.find client.name = none) (n : ℕ) :
    insert w client n = Prod.fst <$> sayAll ({ w with channel := joined w client }, n)
      (writes w (.insert client)) := by
  have hloop := foldlM_eq_sayAll (greet_eq (joined w client) client) (joined w client).users
  have hno : ¬ (w.channel.find client.name).isSome := by simp [h]
  rw [insert, writes, if_neg hno, if_neg hno]
  simp only [sayAll_cons, sayAll_append, sayAll_nil, ← hloop, map_eq_pure_bind, bind_assoc,
    bind_pure]
  rfl

lemma remove_eq {w : World} {client : User} (h : client ∈ w.channel.users) (n : ℕ) :
    remove w client n = Prod.fst <$> sayAll ({ w with channel := parted w client }, n)
      (writes w (.remove client)) := by
  have hloop := foldlM_say (USER_PART_ARGS (parted w client) client) (parted w client).users
  rw [remove, writes, if_pos h, if_pos h]
  simp only [sayAll_cons, sayAll_append, sayAll_nil, ← hloop, map_eq_pure_bind, bind_assoc,
    bind_pure]
  rfl

end Throwing

/-- A loop whose body makes the writes `out m`. -/
lemma foldl_eq_sayAll {body : World → User → World} {out : User → List (User × Said)}
    (hbody : ∀ w m, body w m = sayAll w (out m)) (us : List User) (w : World) :
    us.foldl body w = sayAll w (us.flatMap out) := by
  induction us generalizing w with
  | nil => rfl
  | cons m us ih =>
      rw [List.foldl_cons, ih, hbody, List.flatMap_cons, sayAll, sayAll, sayAll, List.foldl_append]

lemma foldl_say (c : Said) (us : List User) (w : World) :
    us.foldl (fun w m => w.say m c) w = sayAll w (us.map fun m => (m, c)) := by
  rw [sayAll, List.foldl_map]

lemma world_greet_eq (this : Channel) (client : User) (w : World) (m : User) :
    greet this client w m = sayAll w (greetWrites this client m) := by
  rw [greet, greetWrites]
  by_cases hm : m = client
  · rw [if_neg (not_not.mpr hm), if_neg (not_not.mpr hm)]
    rfl
  · rw [if_pos hm, if_pos hm]
    rfl

/-- An operation that changes the members, and then makes its writes. -/
structure Changes (w : World) (op : Op) (c : Channel) : Prop where
  ne : c.members ≠ w.channel.members
  apply : w.apply op = sayAll { w with channel := c } (writes w op)
  attempt : ∀ n, Throwing.apply w n op
    = Prod.fst <$> Throwing.sayAll ({ w with channel := c }, n) (writes w op)

lemma changes_insert {w : World} {client : User} (h : w.channel.find client.name = none) :
    Changes w (.insert client) (joined w client) := by
  have hno : ¬ (w.channel.find client.name).isSome := by simp [h]
  refine ⟨fun he => ?_, ?_, Throwing.insert_eq h⟩
  · have hperm : (joined w client).members.Perm ((client.name, client) :: w.channel.members) :=
      assign_perm client.name client (notMem_of_find h)
    have hlen := hperm.length_eq
    rw [he, List.length_cons] at hlen
    omega
  · have hloop :=
      foldl_eq_sayAll (world_greet_eq (joined w client) client) (joined w client).users
    rw [World.apply, World.insert, writes, if_neg hno, if_neg hno]
    simp only [sayAll, List.foldl_cons, List.foldl_append, List.foldl_nil] at hloop ⊢
    rw [← hloop]
    rfl

lemma changes_remove {w : World} {client : User} (h : client ∈ w.channel.users) :
    Changes w (.remove client) (parted w client) := by
  refine ⟨fun he => ?_, ?_, Throwing.remove_eq h⟩
  · obtain ⟨p, hp, rfl⟩ := List.mem_map.mp h
    have hlen : (parted w p.2).members.length = w.channel.members.length - 1 :=
      List.length_eraseP_of_mem hp (decide_eq_true rfl)
    have hpos := List.length_pos_of_mem hp
    rw [he] at hlen
    omega
  · have hloop := foldl_say (USER_PART_ARGS (parted w client) client) (parted w client).users
    rw [World.apply, World.remove, writes, if_pos h, if_pos h]
    simp only [sayAll, List.foldl_cons, List.foldl_append, List.foldl_nil] at hloop ⊢
    rw [← hloop]
    rfl

/-- An operation that changes the members survives where no other member is written to from the
write that throws on. -/
lemma Changes.survives_writes_iff {w : World} {op : Op} {c : Channel} (h : Changes w op c) (n : ℕ) :
    Survives w op n ↔ ∀ y, (writes w op)[n]? = some y →
      ∀ x ∈ (writes w op).drop n, x.1 ∈ c.users → x.1 = y.1 := by
  have hfinal : (w.apply op).channel = c := by rw [h.apply, channel_sayAll]
  cases hy : (writes w op)[n]? with
  | none =>
      obtain ⟨left, hok⟩ :=
        Throwing.sayAll_ok { w with channel := c } (List.getElem?_eq_none_iff.mp hy)
      refine iff_of_true (fun w' u herr => ?_) (fun y hsome => absurd hsome (by simp))
      rw [h.attempt, hok] at herr
      cases herr
  | some y =>
      have herr := Throwing.sayAll_error { w with channel := c } hy
      constructor
      · intro hs z hz x hx hmem
        obtain rfl := Option.some.inj hz
        by_contra hne
        rcases hs _ _ (by rw [h.attempt, herr]; rfl) with hsame | ⟨-, htold⟩
        · rw [channel_sayAll] at hsame
          exact h.ne hsame
        · have htake := htold x.1 (by rw [hfinal]; exact hmem) hne
          rw [h.apply, log_take_eq_iff] at htake
          exact htake x hx rfl
      · intro hdrop w' u hexit
        rw [h.attempt, herr] at hexit
        obtain ⟨rfl, rfl⟩ := Prod.mk.inj (Except.error.inj hexit)
        refine Or.inr ⟨by rw [hfinal, channel_sayAll], fun v hv hne => ?_⟩
        rw [hfinal] at hv
        rw [h.apply, log_take_eq_iff]
        rintro x hx rfl
        exact hne (hdrop y rfl x hx hv)

lemma survives_clear (w : World) (n : ℕ) : Survives w .clear n := by
  intro w' u herr
  have hclear : Throwing.apply w n .clear
      = (fun s : World × ℕ => { s.1 with channel := { w.channel with members := [] } })
        <$> Throwing.sayAll (w, n) (writes w .clear) := by
    rw [Throwing.apply, Throwing.clear, writes, ← Throwing.foldlM_say, map_eq_pure_bind]
  rw [hclear] at herr
  cases hy : (writes w .clear)[n]? with
  | none =>
      obtain ⟨left, hok⟩ := Throwing.sayAll_ok w (List.getElem?_eq_none_iff.mp hy)
      rw [hok] at herr
      cases herr
  | some y =>
      rw [Throwing.sayAll_error w hy] at herr
      obtain ⟨rfl, rfl⟩ := Prod.mk.inj (Except.error.inj herr)
      rw [channel_sayAll]
      exact Or.inl rfl

/-! ### Which writes are left -/

section Rest

variable {α : Type} {l : List α} {n : ℕ} {x z : α}

/-- The rest of a list that is not empty begins with the element of its number. -/
lemma exists_of_drop (hx : x ∈ l.drop n) : ∃ y, l[n]? = some y ∧ y ∈ l.drop n := by
  obtain ⟨y, t, hdrop⟩ := List.exists_cons_of_ne_nil (List.ne_nil_of_mem hx)
  refine ⟨y, ?_, hdrop ▸ List.mem_cons_self⟩
  rw [← List.head?_drop, hdrop, List.head?_cons]

/-- It ends with the last element. -/
lemma last_mem_drop (hx : x ∈ (l ++ [z]).drop n) : z ∈ (l ++ [z]).drop n := by
  have hne := List.ne_nil_of_mem hx
  have hlast : ((l ++ [z]).drop n).getLast hne = z := by
    rw [List.getLast_drop, List.getLast_append_singleton]
  have hmem := List.getLast_mem hne
  rwa [hlast] at hmem

/-- From the last element on, there is no other. -/
lemma eq_last_of_drop (hn : l.length ≤ n) (hx : x ∈ (l ++ [z]).drop n) : x = z := by
  rw [List.drop_append, List.drop_eq_nil_of_le hn, List.nil_append] at hx
  exact List.mem_singleton.mp (List.mem_of_mem_drop hx)

end Rest

lemma writes_insert {w : World} {client : User} (h : w.channel.find client.name = none) :
    (∃ l m, writes w (.insert client) = l ++ [(client, m)]) ∧
      ∀ x ∈ writes w (.insert client), x.1 ∈ (joined w client).users := by
  have hclient : client ∈ (joined w client).users :=
    (mem_users_cons_iff (assign_perm client.name client (notMem_of_find h))).mpr (Or.inl rfl)
  rw [writes, if_neg (by simp [h])]
  constructor
  · refine ⟨(client, ⟨JOIN_ACCEPTED, [.string w.channel.name]⟩)
      :: ((joined w client).users.flatMap (greetWrites (joined w client) client)
        ++ [(client, ⟨JOIN_COMPLETED, [.string w.channel.name]⟩)]),
      ⟨CHANNEL_TOPIC, [.string w.channel.name, .string w.channel.topic]⟩, ?_⟩
    rw [List.cons_append, List.append_assoc]
    rfl
  · intro x hx
    simp only [List.mem_cons, List.mem_append, List.mem_flatMap, List.not_mem_nil, or_false] at hx
    rcases hx with rfl | ⟨m, hm, hx⟩ | rfl | rfl
    · exact hclient
    · rw [greetWrites] at hx
      split_ifs at hx
      · simp only [List.mem_cons, List.not_mem_nil, or_false] at hx
        rcases hx with rfl | rfl
        · exact hclient
        · exact hm
      · rw [List.mem_singleton.mp hx]
        exact hclient
    · exact hclient
    · exact hclient

lemma settled_insert_iff {w : World} {client : User} (h : w.channel.find client.name = none)
    (n : ℕ) : (∀ y, (writes w (.insert client))[n]? = some y →
      ∀ x ∈ (writes w (.insert client)).drop n, x.1 ∈ (joined w client).users → x.1 = y.1)
        ↔ Settled w (.insert client) n := by
  obtain ⟨⟨l, m, hl⟩, hmem⟩ := writes_insert h
  rw [hl] at hmem
  rw [Settled, hl]
  constructor
  · intro hs x hx
    -- the last write is to the new member
    obtain ⟨y, hy, -⟩ := exists_of_drop hx
    have hlast := last_mem_drop hx
    have hclient := hs y hy _ hlast (hmem _ (List.mem_of_mem_drop hlast))
    rw [hs y hy x hx (hmem x (List.mem_of_mem_drop hx)), ← hclient]
  · intro hs y hy x hx _
    obtain ⟨y', hy', hmem'⟩ := exists_of_drop hx
    obtain rfl := Option.some.inj (hy.symm.trans hy')
    rw [hs x hx, hs y hmem']

lemma settled_remove_iff {w : World} {client : User} (h : client ∈ w.channel.users) (n : ℕ) :
    (∀ y, (writes w (.remove client))[n]? = some y →
      ∀ x ∈ (writes w (.remove client)).drop n, x.1 ∈ (parted w client).users → x.1 = y.1)
        ↔ Settled w (.remove client) n := by
  rw [Settled]
  constructor
  · intro hs x hx z hz hxm hzm
    obtain ⟨y, hy, -⟩ := exists_of_drop hx
    rw [hs y hy x hx hxm, hs y hy z hz hzm]
  · intro hs y hy x hx hxm
    obtain ⟨y', hy', hmem⟩ := exists_of_drop hx
    obtain rfl := Option.some.inj (hy.symm.trans hy')
    by_cases hym : y.1 ∈ (parted w client).users
    · exact hs x hx y hmem hxm hym
    · -- the write to the removed user is the last one
      have hl : writes w (.remove client)
          = (parted w client).users.map (fun m => (m, USER_PART_ARGS (parted w client) client))
            ++ [(client, PART_CHAN_ARGS (parted w client))] := if_pos h
      rw [hl] at hx hy hmem
      rcases Nat.lt_or_ge n ((parted w client).users.map
        fun m => (m, USER_PART_ARGS (parted w client) client)).length with hn | hn
      · rw [List.getElem?_append_left hn] at hy
        obtain ⟨m, hm, rfl⟩ := List.mem_map.mp (List.mem_of_getElem? hy)
        exact absurd hm hym
      · rw [eq_last_of_drop hn hx, eq_last_of_drop hn hmem]

/-- **An operation whose write number `n` throws** survives exactly where it is `clear`, or
nothing was left to be written to another member. -/
theorem survives_iff (w : World) (op : Op) (n : ℕ) : Survives w op n ↔ Settled w op n := by
  cases op with
  | insert client =>
      cases h : w.channel.find client.name with
      | none => rw [(changes_insert h).survives_writes_iff, settled_insert_iff h]
      | some u =>
          have hnone : writes w (.insert client) = [] := if_pos (by rw [h]; rfl)
          have hok : Throwing.apply w n (.insert client) = .ok w := if_pos (by rw [h]; rfl)
          refine iff_of_true (fun w' v herr => ?_) ?_
          · rw [hok] at herr
            cases herr
          · rw [Settled, hnone]
            simp
  | remove client =>
      by_cases h : client ∈ w.channel.users
      · rw [(changes_remove h).survives_writes_iff, settled_remove_iff h]
      · have hnone : writes w (.remove client) = [] := if_neg h
        have hok : Throwing.apply w n (.remove client) = .ok w := if_neg h
        refine iff_of_true (fun w' v herr => ?_) ?_
        · rw [hok] at herr
          cases herr
        · rw [Settled, hnone]
          simp
  | clear => exact iff_of_true (survives_clear w n) trivial

/-- A user whose name has as many letters as its address says. -/
def lettered (addr : ℕ) : User := ⟨addr, Command.letters addr, 0⟩

/-- The channel of two users. -/
def two : World :=
  (World.new (Command.letters 0) (Command.letters 0) eighth).run
    [.insert (lettered 1), .insert (lettered 2)]

/-- The first write throws: the new member is in the map, and the others have not been told;
and a member is out of the map, and those behind the first one have not been told. -/
theorem not_survives_first :
    ¬ Survives two (.insert (lettered 3)) 0 ∧
    ¬ Survives (two.insert (lettered 3)) (.remove (lettered 3)) 0 := by
  constructor
  · rw [(changes_insert (by decide)).survives_writes_iff, settled_insert_iff (by decide), Settled]
    decide
  · rw [(changes_remove (by decide)).survives_writes_iff, settled_remove_iff (by decide), Settled]
    decide

end Napd
