import Napd.Napnet.Node

/-!
The nodes of a network, over every run: programs that start, turn and stop, and datagrams that
arrive late, more than once, out of order or never.

* `Grows`: stations stay, and what they sent stays sent; `grows_set`.
* `Spoke`: a datagram was sent by a station, to an address. `Sound`: the invariant;
  `happen_keeps`.
* `network_spoken`: **what each station sent and queued is what it was to say.**
* `network_heard`: **a station that is logged exists; it sent its hello to the group, or it answers
  a hello that it has logged itself.**
* `discovered`: **once a hello has reached a station that is not blocked, and its answer has come
  back, each of the two has logged the other.**
* `blocked_forever`: a station that could not send something at once never sends again.
-/

namespace Napd

namespace Napnet

open Client Command
open scoped List

/-- Stations stay where they are, and what they sent stays sent. -/
def Grows (s s' : Network) : Prop :=
  ∀ (i : ℕ) (a : Station), s[i]? = some a →
    ∃ a', s'[i]? = some a' ∧ a'.host = a.host ∧ Sends a.node a'.node

lemma Grows.refl (s : Network) : Grows s s := fun _ a hi => ⟨a, hi, rfl, .refl _⟩

lemma Grows.trans {s₁ s₂ s₃ : Network} (h : Grows s₁ s₂) (h' : Grows s₂ s₃) : Grows s₁ s₃ := by
  intro i a hi
  obtain ⟨a₂, hi₂, hhost₂, hsends₂⟩ := h i a hi
  obtain ⟨a₃, hi₃, hhost₃, hsends₃⟩ := h' i a₂ hi₂
  exact ⟨a₃, hi₃, hhost₃.trans hhost₂, hsends₂.trans hsends₃⟩

/-- One station changes. -/
lemma grows_set {s : Network} {i : ℕ} {a a' : Station} (hi : s[i]? = some a)
    (hhost : a'.host = a.host) (hsends : Sends a.node a'.node) : Grows s (s.set i a') := by
  intro k b hk
  by_cases heq : i = k
  · subst heq
    obtain rfl := Option.some.inj (hi.symm.trans hk)
    exact ⟨a', by rw [List.getElem?_set_self' , hi]; rfl, hhost, hsends⟩
  · exact ⟨b, by rw [List.getElem?_set_ne heq]; exact hk, rfl, .refl _⟩

/-- A station is added. -/
lemma grows_append (s t : Network) : Grows s (s ++ t) := by
  intro i a hi
  refine ⟨a, ?_, rfl, .refl _⟩
  rw [List.getElem?_append_left (List.getElem?_eq_some_iff.mp hi).1]
  exact hi

/-- A datagram was sent to an address, by a station that it comes from. -/
def Spoke (s : Network) (d : Datagram) (dest : Address) : Prop :=
  ∃ a ∈ s, a.host.val = d.sender ∧ ⟨dest, d.bytes⟩ ∈ a.node.sent

lemma Spoke.mono {s s' : Network} (h : Grows s s') {d : Datagram} {dest : Address}
    (hd : Spoke s d dest) : Spoke s' d dest := by
  obtain ⟨a, ha, hhost, hsent⟩ := hd
  obtain ⟨i, hi⟩ := List.getElem?_of_mem ha
  obtain ⟨a', hi', hhost', hsends⟩ := h i a hi
  exact ⟨a', List.mem_of_getElem? hi', by rw [hhost', hhost], hsends.sent.subset hsent⟩

/-- A station of which everything that arrived was sent. -/
structure Genuine (s : Network) (a : Station) : Prop where
  inv : Inv a.node
  group : multicast a.node.group = true
  net : ∀ d ∈ a.node.net.consumed ++ a.node.net.pending, Spoke s d a.node.group
  direct : ∀ d ∈ a.node.direct.consumed ++ a.node.direct.pending, Spoke s d a.host

lemma Genuine.mono {s s' : Network} (h : Grows s s') {a : Station} (ha : Genuine s a) :
    Genuine s' a :=
  ⟨ha.inv, ha.group, fun d hd => (ha.net d hd).mono h, fun d hd => (ha.direct d hd).mono h⟩

/-- The invariant of the network. -/
def Sound (s : Network) : Prop := ∀ a ∈ s, Genuine s a

/-- A station of a sound network changes. -/
lemma Sound.set {s : Network} (h : Sound s) {i : ℕ} {a a' : Station} (hi : s[i]? = some a)
    (hhost : a'.host = a.host) (hsends : Sends a.node a'.node)
    (ha' : Genuine (s.set i a') a') : Sound (s.set i a') := by
  intro b hb
  rcases List.mem_or_eq_of_mem_set hb with hb | rfl
  · exact (h b hb).mono (grows_set hi hhost hsends)
  · exact ha'

/-- What a node says is its hello, an answer to a hello, or its goodbye. -/
lemma spoken_cases {n : Node} (h : Inv n) {p : Packet} (hp : p ∈ n.spoken) :
    p = ⟨n.group, bare NAPNET_HELLO⟩ ∨
      (∃ d ∈ n.net.consumed, codeOf d.bytes = NAPNET_HELLO ∧ p = ⟨d.sender, bare NAPNET_HELLO⟩) ∨
      n.phase = .exited ∧ p = ⟨n.group, bare NAPNET_GOODBYE⟩ := by
  rw [h.spoken, Node.answers, List.mem_append, List.mem_cons, List.mem_filterMap] at hp
  rcases hp with (hp | ⟨d, hd, hreply⟩) | hp
  · exact .inl hp
  · rw [reply] at hreply
    split_ifs at hreply with hhello
    exact .inr (.inl ⟨d, hd, hhello.1, (Option.some.inj hreply).symm⟩)
  · rw [Node.farewell] at hp
    split_ifs at hp with hphase
    · exact .inr (.inr ⟨hphase, List.mem_singleton.mp hp⟩)
    · exact absurd hp List.not_mem_nil

/-- Everything that is said is one whole frame. -/
lemma whole_of_mem_spoken {n : Node} (h : Inv n) {p : Packet} (hp : p ∈ n.spoken) :
    framing.Whole p.bytes := by
  obtain rfl | ⟨d, -, -, rfl⟩ | ⟨-, rfl⟩ := spoken_cases h hp
  · exact whole_bare _
  · exact whole_bare _
  · exact whole_bare _

lemma mem_spoken_of_sent {n : Node} {p : Packet} (hp : p ∈ n.sent) : p ∈ n.spoken :=
  List.mem_append_left _ hp

/-- A datagram that was sent is delivered. -/
lemma Genuine.deliver {s : Network} {a : Station} (h : Genuine s a) {sender : Address}
    {p : Packet} (hp : framing.Whole p.bytes) (hsent : Spoke s ⟨sender, p.bytes⟩ p.dest) :
    Genuine s (a.deliver sender p) ∧ (a.deliver sender p).host = a.host ∧
      Sends a.node (a.deliver sender p).node := by
  rw [Station.deliver]
  split_ifs with hgroup hhost
  · refine ⟨⟨⟨h.inv.net.arrives hp, h.inv.direct, ⟨h.inv.speaks.waits, h.inv.speaks.unused⟩,
      h.inv.spoken, h.inv.log⟩, h.group, ?_, h.direct⟩, rfl,
      ⟨List.prefix_rfl, fun hne => ⟨hne, rfl⟩⟩⟩
    show ∀ d ∈ a.node.net.consumed ++ (a.node.net.pending ++ [_]), _
    rw [← List.append_assoc, List.forall_mem_append, List.forall_mem_singleton]
    exact ⟨h.net, hgroup ▸ hsent⟩
  · refine ⟨⟨⟨h.inv.net, h.inv.direct.arrives hp, ⟨h.inv.speaks.waits, h.inv.speaks.unused⟩,
      h.inv.spoken, h.inv.log⟩, h.group, h.net, ?_⟩, rfl,
      ⟨List.prefix_rfl, fun hne => ⟨hne, rfl⟩⟩⟩
    show ∀ d ∈ a.node.direct.consumed ++ (a.node.direct.pending ++ [_]), _
    rw [← List.append_assoc, List.forall_mem_append, List.forall_mem_singleton]
    exact ⟨h.direct, hhost ▸ hsent⟩
  · exact ⟨h, rfl, .refl _⟩

/-- **One happening** never faults. -/
lemma happen_keeps {s : Network} (h : Sound s) (x : Happening) :
    ∃ s', happen s x = some s' ∧ Sound s' ∧ Grows s s' := by
  cases x with
  | started host group addr f answers =>
      rw [happen.eq_def]
      dsimp only
      split_ifs with hgroup
      · obtain ⟨n, hstart, hinv, rfl, -, hnet, hdirect⟩ := start_inv group addr f answers
        refine ⟨_, by rw [hstart]; rfl, ?_, grows_append _ _⟩
        intro b hb
        rcases List.mem_append.mp hb with hb | hb
        · exact (h b hb).mono (grows_append _ _)
        · obtain rfl := List.mem_singleton.mp hb
          refine ⟨hinv, hgroup, ?_, ?_⟩
          · rw [hnet]
            exact nofun
          · rw [hdirect]
            exact nofun
      · exact ⟨s, rfl, h, .refl s⟩
  | «at» i e =>
      rw [happen.eq_def]
      dsimp only
      cases hi : s[i]? with
      | none => exact ⟨s, rfl, h, .refl s⟩
      | some a =>
          have ha := h a (List.mem_of_getElem? hi)
          obtain ⟨n, hstep, hinv, hfollows⟩ := step_keeps ha.inv e
          have hgrows : Grows s (s.set i { a with node := n }) := grows_set hi rfl hfollows.sends
          refine ⟨_, by dsimp only; rw [hstep]; rfl, ?_, hgrows⟩
          refine h.set hi rfl hfollows.sends ⟨hinv, hfollows.group ▸ ha.group, ?_, ?_⟩
          · show ∀ d ∈ n.net.consumed ++ n.net.pending, Spoke _ d n.group
            rw [hfollows.net, hfollows.group]
            exact fun d hd => (ha.net d hd).mono hgrows
          · show ∀ d ∈ n.direct.consumed ++ n.direct.pending, Spoke _ d a.host
            rw [hfollows.direct]
            exact fun d hd => (ha.direct d hd).mono hgrows
  | reaches i m j =>
      rw [happen.eq_def]
      dsimp only
      cases hi : s[i]? with
      | none => exact ⟨s, rfl, h, .refl s⟩
      | some a =>
          cases hj : s[j]? with
          | none => exact ⟨s, rfl, h, .refl s⟩
          | some b =>
              dsimp only
              cases hm : a.node.sent[m]? with
              | none => exact ⟨s, rfl, h, .refl s⟩
              | some p =>
                  have ha := List.mem_of_getElem? hi
                  have hp := List.mem_of_getElem? hm
                  obtain ⟨hb, hhost, hsends⟩ := (h b (List.mem_of_getElem? hj)).deliver
                    (whole_of_mem_spoken (h a ha).inv (mem_spoken_of_sent hp)) ⟨a, ha, rfl, hp⟩
                  have hgrows := grows_set hj hhost hsends
                  exact ⟨_, rfl, h.set hj hhost hsends (hb.mono hgrows), hgrows⟩

/-- **Every run** gets through, and keeps the network sound. -/
lemma run_keeps {s : Network} (h : Sound s) (hs : List Happening) :
    ∃ s', Runs.run happen s hs = some s' ∧ Sound s' ∧ Grows s s' := by
  refine Runs.run_succeeds (I := fun s' => Sound s' ∧ Grows s s') (C := fun _ _ => True) ?_
    ⟨h, .refl s⟩ (Runs.Always.of_forall (fun _ _ => trivial) s)
  rintro s₁ x ⟨h₁, hgrows₁⟩ -
  obtain ⟨s₂, hx, h₂, hgrows₂⟩ := happen_keeps h₁ x
  exact ⟨s₂, hx, h₂, hgrows₁.trans hgrows₂⟩

lemma sound_of_run {hs : List Happening} {s : Network} (hrun : Runs.run happen [] hs = some s) :
    Sound s := by
  obtain ⟨s', hrun', h, -⟩ := run_keeps (s := []) nofun hs
  obtain rfl := Option.some.inj (hrun'.symm.trans hrun)
  exact h

/-! ### What is heard -/

/-- An address that datagrams come from is no group. -/
lemma Spoke.sender_ne {s : Network} {d : Datagram} {dest group : Address} (h : Spoke s d dest)
    (hgroup : multicast group = true) : d.sender ≠ group := by
  obtain ⟨a, -, hhost, -⟩ := h
  rintro rfl
  rw [← hhost, a.host.property] at hgroup
  exact absurd hgroup nofun

/-- What reaches a station from its group: a hello or a goodbye of a station of the group. -/
lemma Genuine.from_group {s : Network} {a : Station} (hs : Sound s) (ha : Genuine s a)
    {d : Datagram} (hd : d ∈ a.node.net.consumed) :
    ∃ b ∈ s, b.host.val = d.sender ∧ b.node.group = a.node.group ∧
      (d.bytes = bare NAPNET_HELLO ∨ d.bytes = bare NAPNET_GOODBYE ∧ b.node.phase = .exited) := by
  obtain ⟨b, hb, hhost, hsent⟩ := ha.net d (List.mem_append_left _ hd)
  refine ⟨b, hb, hhost, ?_⟩
  obtain heq | ⟨e, he, -, heq⟩ | ⟨hphase, heq⟩ :=
    spoken_cases (hs b hb).inv (mem_spoken_of_sent hsent)
  · exact ⟨(congrArg Packet.dest heq).symm, .inl (congrArg Packet.bytes heq)⟩
  · have hspoke := (hs b hb).net e (List.mem_append_left _ he)
    exact absurd (congrArg Packet.dest heq).symm (hspoke.sender_ne ha.group)
  · exact ⟨(congrArg Packet.dest heq).symm, .inr ⟨congrArg Packet.bytes heq, hphase⟩⟩

/-- A hello from the group is logged. -/
lemma Inv.logged {n : Node} (h : Inv n) {d : Datagram} (hd : d ∈ n.net.consumed)
    (hcode : codeOf d.bytes = NAPNET_HELLO) : .hello d.sender ∈ n.log :=
  h.log.mem_iff.mpr (List.mem_append_left _ (List.mem_filterMap.mpr ⟨d, hd, if_pos hcode⟩))

/-- What reaches a station for itself: the answer of a station that had its hello from the group. -/
lemma Genuine.from_host {s : Network} {a : Station} (hs : Sound s) (ha : Genuine s a)
    {d : Datagram} (hd : d ∈ a.node.direct.consumed) :
    ∃ b ∈ s, b.host.val = d.sender ∧ d.bytes = bare NAPNET_HELLO ∧
      ∃ e ∈ b.node.net.consumed, codeOf e.bytes = NAPNET_HELLO ∧ e.sender = a.host.val := by
  obtain ⟨b, hb, hhost, hsent⟩ := ha.direct d (List.mem_append_left _ hd)
  have hne : a.host.val ≠ b.node.group := by
    intro heq
    have hgroup := (hs b hb).group
    rw [← heq, a.host.property] at hgroup
    exact absurd hgroup nofun
  obtain heq | ⟨e, he, hcode, heq⟩ | ⟨-, heq⟩ :=
    spoken_cases (hs b hb).inv (mem_spoken_of_sent hsent)
  · exact absurd (congrArg Packet.dest heq) hne
  · have hdest : a.host.val = e.sender := congrArg Packet.dest heq
    exact ⟨b, hb, hhost, congrArg Packet.bytes heq, e, he, hcode, hdest.symm⟩
  · exact absurd (congrArg Packet.dest heq) hne

/-! ### The results -/

/-- What a line in the log of a station stands for. -/
def Warranted (s : Network) (a : Station) : Line → Prop
  | .goodbye p => ∃ b ∈ s, b.host.val = p ∧ b.node.group = a.node.group ∧ b.node.phase = .exited
  | .hello p => ∃ b ∈ s, b.host.val = p ∧
      (b.node.group = a.node.group ∨ .hello a.host.val ∈ b.node.log)

/-- **In every run nothing faults, and each station says what it is to say**: its hello to the
group, one hello back for each hello it read from another address, in order, and its goodbye when
it ends; nothing else, and in particular no answer to an answer. It logs what it read. -/
theorem network_spoken (hs : List Happening) :
    ∃ s, Runs.run happen [] hs = some s ∧ ∀ a ∈ s,
      a.node.sent ++ a.node.napdirect.wqueue.map packet = a.node.answers ++ a.node.farewell ∧
      a.node.log ~ a.node.heard := by
  obtain ⟨s, hrun, h, -⟩ := run_keeps (s := []) nofun hs
  exact ⟨s, hrun, fun a ha => ⟨(h a ha).inv.spoken, (h a ha).inv.log⟩⟩

/-- **In every state that a run reaches, what is logged is so**: a goodbye is that of a station of
the same group that has ended; a hello is that of a station of the same group, or of one that has
logged a hello of the station itself. -/
theorem network_heard (hs : List Happening) (s : Network)
    (hrun : Runs.run happen [] hs = some s) :
    ∀ a ∈ s, ∀ l ∈ a.node.log, Warranted s a l := by
  have h := sound_of_run hrun
  intro a ha l hl
  have hmem := (h a ha).inv.log.mem_iff.mp hl
  rw [Node.heard, List.mem_append, List.mem_filterMap, List.mem_map] at hmem
  rcases hmem with ⟨d, hd, hline⟩ | ⟨d, hd, rfl⟩
  · obtain ⟨b, hb, hhost, hgroup, hbytes⟩ := (h a ha).from_group h hd
    rcases hbytes with hbytes | ⟨hbytes, hphase⟩
    · rw [line, hbytes] at hline
      obtain rfl := Option.some.inj hline
      exact ⟨b, hb, hhost, .inl hgroup⟩
    · rw [line, hbytes] at hline
      obtain rfl := Option.some.inj hline
      exact ⟨b, hb, hhost, hgroup, hphase⟩
  · obtain ⟨b, hb, hhost, -, e, he, hcode, hsender⟩ := (h a ha).from_host h hd
    exact ⟨b, hb, hhost, .inr (hsender ▸ (h b hb).inv.logged he hcode)⟩

/-- Two stations of a group: the second one's hello reaches the first, whose answer reaches it. -/
def meeting : List Happening :=
  let f : Fresh := ⟨8, Nat.succ_ne_zero _, fun _ => 170⟩
  let group : Address := ⟨3758491142, 9999⟩
  [.started ⟨⟨167772161, 8888⟩, rfl⟩ group ⟨0, 8888⟩ f [.taken],
    .started ⟨⟨167772162, 8888⟩, rfl⟩ group ⟨0, 8888⟩ f [.taken],
    .reaches 1 0 0, .at 0 (.turn ⟨true, f, [none, none], f, [.taken], false, f, []⟩ f [] []),
    .reaches 0 1 1, .at 1 (.turn ⟨false, f, [], f, [], true, f, [none, none]⟩ f [] [])]

/-- A test of two stations, at the end of a run. -/
def met (hs : List Happening) (test : Station → Station → Bool) : Bool :=
  match Runs.run happen [] hs with
  | some [b, a] => test b a
  | _ => false

lemma exists_of_met {hs : List Happening} {test : Station → Station → Bool}
    (h : met hs test = true) :
    ∃ b a, Runs.run happen [] hs = some [b, a] ∧ test b a = true := by
  rw [met] at h
  generalize Runs.run happen [] hs = out at h ⊢
  match out, h with
  | some [b, a], h => exact ⟨b, a, rfl, h⟩

theorem network_heard_meeting :
    ∃ s, Runs.run happen [] meeting = some s ∧ ∃ b ∈ s, b.host.val = ⟨167772162, 8888⟩ := by
  have hmet : met meeting (fun b _ => decide (.hello ⟨167772162, 8888⟩ ∈ b.node.log)) = true := by
    decide +kernel
  obtain ⟨b, a, hrun, hlog⟩ := exists_of_met hmet
  obtain ⟨c, hc, hhost, -⟩ := network_heard meeting _ hrun b List.mem_cons_self _
    (of_decide_eq_true hlog)
  exact ⟨_, hrun, c, hc, hhost⟩

/-- **Discovery.** In every state that a run reaches: where `b` has read the hello that `a` sent to
the group, and its own answer has neither been held back nor got lost, each of the two has
logged the other, whether or not `a` ever received the hello that `b` sent to the group. -/
theorem discovered (hs : List Happening) (s : Network) (hrun : Runs.run happen [] hs = some s)
    (a b : Station) (hb : b ∈ s) (ha : a ∈ s)
    (hread : ⟨a.host, bare NAPNET_HELLO⟩ ∈ b.node.net.consumed) (hother : a.host.val ≠ b.node.addr)
    (hqueue : b.node.napdirect.wqueue = [])
    (harrived : ∀ p ∈ b.node.sent, p.dest = a.host →
      ⟨b.host, p.bytes⟩ ∈ a.node.direct.consumed) :
    .hello a.host.val ∈ b.node.log ∧ .hello b.host.val ∈ a.node.log := by
  have h := sound_of_run hrun
  have hcode : codeOf (bare NAPNET_HELLO) = NAPNET_HELLO := codeOf_bare _
  refine ⟨(h b hb).inv.logged hread hcode, ?_⟩
  have hanswer : ⟨a.host, bare NAPNET_HELLO⟩ ∈ b.node.sent := by
    have hspoken := (h b hb).inv.spoken
    rw [Node.spoken, hqueue, List.map_nil, List.append_nil] at hspoken
    rw [hspoken]
    refine List.mem_append_left _ (List.mem_cons_of_mem _ (List.mem_filterMap.mpr ⟨_, hread, ?_⟩))
    exact if_pos ⟨hcode, hother⟩
  have hmem := harrived _ hanswer rfl
  exact (h a ha).inv.log.mem_iff.mpr (List.mem_append_right _ (List.mem_map.mpr ⟨_, hmem, rfl⟩))

theorem discovered_meeting :
    ∃ b a, Runs.run happen [] meeting = some [b, a] ∧ .hello a.host.val ∈ b.node.log ∧
      .hello b.host.val ∈ a.node.log := by
  have hmet : met meeting (fun b a => decide
      (⟨a.host, bare NAPNET_HELLO⟩ ∈ b.node.net.consumed ∧ a.host.val ≠ b.node.addr ∧
        b.node.napdirect.wqueue.isEmpty = true ∧
        ∀ p ∈ b.node.sent, p.dest = a.host → ⟨b.host, p.bytes⟩ ∈ a.node.direct.consumed))
      = true := by
    decide +kernel
  obtain ⟨b, a, hrun, htest⟩ := exists_of_met hmet
  obtain ⟨hread, hother, hqueue, harrived⟩ := of_decide_eq_true htest
  exact ⟨b, a, hrun, discovered meeting _ hrun a b List.mem_cons_self
    (List.mem_cons_of_mem _ List.mem_cons_self) hread hother (List.isEmpty_iff.mp hqueue) harrived⟩

/-- **A station that could not send a datagram at once never sends again**: the loop does not flush
`napdirect`, and nothing is sent while its queue is not empty, whatever becomes due. -/
theorem blocked_forever (hs : List Happening) (s : Network)
    (hrun : Runs.run happen [] hs = some s) (i : ℕ) (a : Station) (hi : s[i]? = some a)
    (hblocked : a.node.napdirect.wqueue ≠ []) (later : List Happening) :
    ∃ s' a', Runs.run happen s later = some s' ∧ s'[i]? = some a' ∧ a'.host = a.host ∧
      a'.node.sent = a.node.sent ∧
      a'.node.sent ++ a'.node.napdirect.wqueue.map packet
        = a'.node.answers ++ a'.node.farewell := by
  obtain ⟨s', hrun', h', hgrows⟩ := run_keeps (sound_of_run hrun) later
  obtain ⟨a', hi', hhost, hsends⟩ := hgrows i a hi
  exact ⟨s', a', hrun', hi', hhost, (hsends.blocked hblocked).2,
    (h' a' (List.mem_of_getElem? hi')).inv.spoken⟩

/-- The hello of the first station is held back, and with it everything that follows. -/
theorem blocked_forever_start :
    ∃ b a : Station, b.node.sent = [] ∧ ∀ later, ∃ s' b', Runs.run happen [b, a] later = some s' ∧
      s'[0]? = some b' ∧ b'.node.sent = [] := by
  have hmet : met
      [.started ⟨⟨167772161, 8888⟩, rfl⟩ ⟨3758491142, 9999⟩ ⟨0, 8888⟩
          ⟨8, Nat.succ_ne_zero _, fun _ => 170⟩ [.again],
        .started ⟨⟨167772162, 8888⟩, rfl⟩ ⟨3758491142, 9999⟩ ⟨0, 8888⟩
          ⟨8, Nat.succ_ne_zero _, fun _ => 170⟩ [.taken]]
      (fun b _ => decide (b.node.sent = [] ∧ b.node.napdirect.wqueue.isEmpty = false)) = true := by
    decide +kernel
  obtain ⟨b, a, hrun, htest⟩ := exists_of_met hmet
  obtain ⟨hnone, hqueue⟩ := of_decide_eq_true htest
  refine ⟨b, a, hnone, fun later => ?_⟩
  obtain ⟨s', b', hrun', hi, -, hsent, -⟩ := blocked_forever _ _ hrun 0 b rfl
    (fun hnil => by rw [hnil] at hqueue; cases hqueue) later
  exact ⟨s', b', hrun', hi, hsent.trans hnone⟩

end Napnet

end Napd
