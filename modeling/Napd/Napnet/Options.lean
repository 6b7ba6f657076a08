import Napd.Address.Parse
import Napd.Napnet.Network

/-!
Where a `napd` is: the option `-m` and the argument of `main` of `napd.cc`, with their default
ports.

* `addresses`: the addresses of the group and of the server. Where the server's has no port, it is
  the group that is given the default port of the server.
* `network_partitioned`: **stations whose groups differ do not hear of each other**, where no two
  stations of different groups share an address.
* `never_meet`: **two stations that were given the same `-m`, one of them a server without a port,
  do not find each other.**
-/

namespace Napd

namespace Napnet

open Client Command Address

/-! ### The options -/

/-- `if (!group_addr.port) group_addr.port = 9999`. -/
def groupDefault (group_addr : Address) : Address :=
  if group_addr.port = 0 then { group_addr with port := 9999 } else group_addr

/-- `if (!server_addr.port) group_addr.port = 8888`. -/
def serverDefault (group_addr server_addr : Address) : Address :=
  if server_addr.port = 0 then { group_addr with port := 8888 } else group_addr

/-- The address of the group and that of the server; `none` inside if the program ends. -/
def addresses (r : Resolver) (buf buf' : List U8) (group_addr_str server_addr_str : Text) :
    Option (Option (Address × Address)) :=
  (ofHost r buf group_addr_str 0).bind fun g =>
    match g with
    | none => some none
    | some g =>
        if multicast (groupDefault g) then
          (ofHost r buf' server_addr_str 0).map fun s =>
            s.map fun s => (serverDefault (groupDefault g) s, s)
        else some none

lemma addresses_spec {r : Resolver} {buf buf' : List U8} {m t : Text} {group server : Address}
    (h : addresses r buf buf' m t = some (some (group, server))) :
    ∃ G, ofHost r buf m 0 = some (some G) ∧ group = serverDefault (groupDefault G) server := by
  rw [addresses] at h
  obtain ⟨g, hg, h⟩ := Option.bind_eq_some_iff.mp h
  cases g with
  | none => cases Option.some.inj h
  | some G =>
      dsimp only at h
      split_ifs at h
      · obtain ⟨s, -, hs⟩ := Option.map_eq_some_iff.mp h
        obtain ⟨x, -, hx⟩ := Option.map_eq_some_iff.mp hs
        obtain ⟨rfl, rfl⟩ := Prod.mk.inj hx
        exact ⟨G, hg, rfl⟩
      · cases Option.some.inj h

/-- The groups of two programs, one of them a server without a port. -/
lemma group_ne {G server server' : Address} (hG : G.port ≠ 8888) (h : server.port = 0)
    (h' : server'.port ≠ 0) :
    serverDefault (groupDefault G) server ≠ serverDefault (groupDefault G) server' := by
  rw [serverDefault, serverDefault, if_pos h, if_neg h', groupDefault]
  intro heq
  have hport := congrArg Address.port heq
  split_ifs at hport
  · cases hport
  · exact hG hport.symm

/-! ### Groups apart -/

/-- Stations that share an address are in the same group. -/
def OneGroup (s : Network) : Prop :=
  ∀ a ∈ s, ∀ b ∈ s, a.host.val = b.host.val → a.node.group = b.node.group

/-- The address in a line. -/
def Line.peer : Line → Address
  | .hello p => p
  | .goodbye p => p

/-- **Groups stay apart.** In every state that a run reaches in which no two stations of different
groups share an address, a line is logged of stations of the same group only, also where they
answer each other directly. -/
theorem network_partitioned (hs : List Happening) (s : Network)
    (hrun : Runs.run happen [] hs = some s) (hone : OneGroup s) :
    ∀ a ∈ s, ∀ l ∈ a.node.log, ∀ b ∈ s, b.host.val = l.peer → b.node.group = a.node.group := by
  have h := sound_of_run hrun
  intro a ha l hl b hb hpeer
  have hmem := (h a ha).inv.log.mem_iff.mp hl
  rw [Node.heard, List.mem_append, List.mem_filterMap, List.mem_map] at hmem
  rcases hmem with ⟨d, hd, hline⟩ | ⟨d, hd, rfl⟩
  · -- it came from the group
    obtain ⟨c, hc, hhost, hgroup, hbytes⟩ := (h a ha).from_group h hd
    have hsender : l.peer = d.sender := by
      rcases hbytes with hbytes | ⟨hbytes, -⟩
      · rw [line, hbytes] at hline
        exact (Option.some.inj hline) ▸ rfl
      · rw [line, hbytes] at hline
        exact (Option.some.inj hline) ▸ rfl
    exact (hone b hb c hc (hpeer.trans (hsender.trans hhost.symm))).trans hgroup
  · -- it is an answer to a hello that came from the group
    obtain ⟨c, hc, hhost, -, e, he, -, hsender⟩ := (h a ha).from_host h hd
    obtain ⟨o, ho, hohost, hgroup, -⟩ := (h c hc).from_group h he
    calc b.node.group
        = c.node.group := hone b hb c hc (hpeer.trans hhost.symm)
      _ = o.node.group := hgroup.symm
      _ = a.node.group := hone o ho a ha (hohost.trans hsender)

/-- The stations of `meeting` have the same group, and the second one has logged the first. -/
theorem network_partitioned_meeting :
    ∃ b a, Runs.run happen [] meeting = some [b, a] ∧ a.node.group = b.node.group := by
  have hmet : met meeting (fun b a => decide
      ((∀ x ∈ [b, a], ∀ y ∈ [b, a], x.host.val = y.host.val → x.node.group = y.node.group) ∧
        .hello a.host.val ∈ b.node.log)) = true := by
    decide +kernel
  obtain ⟨b, a, hrun, htest⟩ := exists_of_met hmet
  obtain ⟨hone, hlog⟩ := of_decide_eq_true htest
  exact ⟨b, a, hrun, network_partitioned meeting _ hrun hone b List.mem_cons_self _ hlog a
    (List.mem_cons_of_mem _ List.mem_cons_self) rfl⟩

/-- What the stack holds. -/
def stack : List U8 := List.replicate 256 170

/-- `224.6.6.6`, the default of `-m`. -/
def groupText : Text := ⟨[50, 50, 52, 46, 54, 46, 54, 46, 54], by decide⟩

/-- `10.0.0.1`. -/
def serverText : Text := ⟨[49, 48, 46, 48, 46, 48, 46, 49], by decide⟩

/-- `:8888`, the default of the argument. -/
def defaultText : Text := ⟨[58, 56, 56, 56, 56], by decide⟩

lemma eight_ne_zero : 8 ≠ 0 := Nat.succ_ne_zero 7

lemma not_multicast_first : multicast ⟨167772161, 8888⟩ = false := rfl

lemma not_multicast_second : multicast ⟨167772162, 8888⟩ = false := rfl

/-- Two programs say hello, and each looks for what reached it. -/
def parted : List Happening :=
  let f : Fresh := ⟨8, eight_ne_zero, fun _ => 170⟩
  [.started ⟨⟨167772161, 8888⟩, not_multicast_first⟩ ⟨3758491142, 8888⟩ ⟨167772161, 0⟩ f [.taken],
    .started ⟨⟨167772162, 8888⟩, not_multicast_second⟩ ⟨3758491142, 9999⟩ ⟨0, 8888⟩ f [.taken],
    .reaches 0 0 1, .reaches 1 0 0,
    .at 0 (.turn ⟨true, f, [none, none], f, [.taken], false, f, []⟩ f [] []),
    .at 1 (.turn ⟨true, f, [none, none], f, [.taken], false, f, []⟩ f [] [])]

/-- **The default port of the server parts the network.** Two programs are given the same option
`-m`, with a port other than 8888 or none; the first is given a server without a port, the second
one with a port. Then in every state that a run reaches, neither has heard of the other. -/
theorem never_meet (r : Resolver) (bufa bufa' bufb bufb' : List U8) (m ta tb : Text)
    (ha₁ : bufa.length = 256) (hb₁ : bufb.length = 256) (hm : (name m).length ≤ 246)
    (hs : List Happening) (s : Network) (hrun : Runs.run happen [] hs = some s) (hone : OneGroup s)
    (a b : Station) (ha : a ∈ s) (hb : b ∈ s) (A B : Address)
    (hA : addresses r bufa bufa' m ta = some (some (a.node.group, A)))
    (hB : addresses r bufb bufb' m tb = some (some (b.node.group, B)))
    (hport : (parsed m 0).2 ≠ 8888) (hA₀ : A.port = 0) (hB₀ : B.port ≠ 0) :
    (∀ l ∈ a.node.log, l.peer ≠ b.host.val) ∧ ∀ l ∈ b.node.log, l.peer ≠ a.host.val := by
  have hread : ∀ buf, buf.length = 256 → splitHost buf m 0 = some (parsed m 0) :=
    (splitHost_iff m 0).2.mpr (.inr (.inr hm))
  obtain ⟨G, hG, hgroupa⟩ := addresses_spec hA
  obtain ⟨G', hG', hgroupb⟩ := addresses_spec hB
  rw [ofHost, hread bufa ha₁, Option.map_some] at hG
  rw [ofHost, hread bufb hb₁, Option.map_some] at hG'
  obtain rfl : G = G' := Option.some.inj (Option.some.inj (hG.symm.trans hG'))
  have hGport : G.port ≠ 8888 := by
    obtain ⟨ip, -, rfl⟩ := Option.map_eq_some_iff.mp (Option.some.inj hG)
    exact hport
  have hne : a.node.group ≠ b.node.group := by
    rw [hgroupa, hgroupb]
    exact group_ne hGport hA₀ hB₀
  constructor
  · intro l hl hpeer
    exact hne (network_partitioned hs s hrun hone a ha l hl b hb hpeer.symm).symm
  · intro l hl hpeer
    exact hne (network_partitioned hs s hrun hone b hb l hl a ha hpeer.symm)

/-- Two programs without the option `-m`: the first is started with `10.0.0.1`, the second without
an argument. Each hello reaches the other program. -/
theorem never_meet_default :
    ∃ a b, Runs.run happen [] parted = some [a, b] ∧
      (∀ l ∈ a.node.log, l.peer ≠ b.host.val) ∧ ∀ l ∈ b.node.log, l.peer ≠ a.host.val := by
  have hmet : met parted (fun a b => decide
      ((∀ x ∈ [a, b], ∀ y ∈ [a, b], x.host.val = y.host.val → x.node.group = y.node.group) ∧
        addresses nameless stack stack groupText serverText
          = some (some (a.node.group, ⟨167772161, 0⟩)) ∧
        addresses nameless stack stack groupText defaultText
          = some (some (b.node.group, ⟨0, 8888⟩)))) = true := by
    decide +kernel
  obtain ⟨a, b, hrun, htest⟩ := exists_of_met hmet
  obtain ⟨hone, hA, hB⟩ := of_decide_eq_true htest
  exact ⟨a, b, hrun, never_meet nameless stack stack stack stack groupText serverText defaultText
    List.length_replicate List.length_replicate
      (by decide) parted _ hrun hone a b List.mem_cons_self
    (List.mem_cons_of_mem _ List.mem_cons_self) _ _ hA hB (by decide) rfl (by decide)⟩

end Napnet

end Napd
