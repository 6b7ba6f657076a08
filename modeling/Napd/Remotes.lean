import Napd.Numbers
import Napd.Strsep

/-!
The servers a server links to: `Server::LoadRemotes` of `db.cc`, compiled out at this commit.

* `Row`: a row of the table `servers`. `RemoteServer`: a server to link to, as `Connect` is called.
* `loadPort`, `loadRow`, `loadRemotes`: the loops of the source, over the fields of the port list
  that `my_strsep` returns.
* `links`: what a row stands for, without memory and cursors.
* `loadRemotes_eq`: **the servers added are those of the rows of the cluster, a server for each
  field of a port list but the server itself.** `not_self`: it never links to itself.
-/

namespace Napd

namespace Remotes

open Splitting Strsep

/-- A row of the table `servers`: the columns that are read. -/
structure Row where
  cluster : U32
  ports : Text
  ip : Text
  name : Text
  key : Text

/-- `RemoteServer`, with the host and port that `Connect` is called with. -/
structure RemoteServer where
  key : Text
  name : Text
  host : Text
  port : U32

/-- What `LoadRemotes` reads and writes of the server. -/
structure Server where
  r_cluster : I32
  LocalIP : Text
  ServerPort : I32
  RemoteServers : List RemoteServer

/-- `" ,"`. -/
def separators : Text := ⟨[32, 44], by decide⟩

/-- The server that a field of the port list stands for. -/
def remote (row : Row) (portstr : List U8) : RemoteServer :=
  ⟨row.key, row.name, row.ip, (atoi portstr - 1).toUInt32⟩

/-- `LocalIP == ip && ServerPort == atoi(portstr)`. -/
def Server.isSelf (s : Server) (row : Row) (portstr : List U8) : Bool :=
  s.LocalIP = row.ip && s.ServerPort = atoi portstr

/-- The body of the loop over the ports. -/
def loadPort (row : Row) (s : Server) (portstr : List U8) : Server :=
  if s.isSelf row portstr then s
  else { s with RemoteServers := s.RemoteServers ++ [remote row portstr] }

/-- The body of the loop over the rows. The loop over the ports ends within as many calls as the
copy of the port list has bytes, and one more. -/
def loadRow (s : Server) (row : Row) : Option Server :=
  if row.cluster.toInt32 ≠ s.r_cluster then some s
  else
    (splitLoop (my_strsep separators) (row.ports.val.length + 2) (row.ports.val ++ [0])
      (some 0)).map fun r => r.1.foldl (fun s f => loadPort row s f.text) s

/-- `Server::LoadRemotes`, for the rows that `fetch` gives. -/
def loadRemotes (s : Server) (rows : List Row) : Option (Bool × Server) :=
  if s.r_cluster < 1 then some (false, s)
  else (rows.foldlM loadRow s).map fun s => (true, s)

/-- The servers that a row stands for. -/
def links (s : Server) (row : Row) : List RemoteServer :=
  if row.cluster.toInt32 ≠ s.r_cluster then []
  else ((fields separators row.ports).filter fun p => !s.isSelf row p).map (remote row)

/-- The server with more servers to link to. -/
def Server.link (s : Server) (rs : List RemoteServer) : Server :=
  { s with RemoteServers := s.RemoteServers ++ rs }

/-! ### The loops -/

lemma link_nil (s : Server) : s.link [] = s := by
  rw [Server.link, List.append_nil]

lemma link_link (s : Server) (rs rs' : List RemoteServer) :
    (s.link rs).link rs' = s.link (rs ++ rs') := by
  rw [Server.link, Server.link, Server.link, List.append_assoc]

/-- Which server it is does not depend on the servers that were added. -/
lemma isSelf_link (s : Server) (rs : List RemoteServer) : (s.link rs).isSelf = s.isSelf := rfl

/-- One port: the server itself is passed over. -/
lemma loadPort_eq (row : Row) (s : Server) (portstr : List U8) :
    loadPort row s portstr
      = s.link (([portstr].filter fun p => !s.isSelf row p).map (remote row)) := by
  rw [loadPort]
  cases hself : s.isSelf row portstr with
  | true =>
      rw [if_pos rfl, List.filter_cons_of_neg (by simp [hself])]
      exact (link_nil s).symm
  | false =>
      rw [if_neg Bool.false_ne_true, List.filter_cons_of_pos (by simp [hself])]
      rfl

/-- All ports of a row. -/
lemma foldl_loadPort (row : Row) (s : Server) (ps : List (List U8)) :
    ps.foldl (loadPort row) s = s.link ((ps.filter fun p => !s.isSelf row p).map (remote row)) := by
  induction ps generalizing s with
  | nil => exact (link_nil s).symm
  | cons p ps ih =>
      rw [List.foldl_cons, loadPort_eq, ih, isSelf_link, link_link, ← List.map_append,
        ← List.filter_append, List.singleton_append]

/-- **One row**: the calls of `my_strsep` give the fields of its port list. -/
lemma loadRow_eq (s : Server) (row : Row) : loadRow s row = some (s.link (links s row)) := by
  rw [loadRow, links]
  split_ifs with hcluster
  case pos => rw [link_nil]
  have hdelims : (row.ports.val.filter (isDelim separators)).length + 2
      ≤ row.ports.val.length + 2 := Nat.add_le_add_right (List.length_filter_le _ _) 2
  have hports := splitLoop_my_strsep separators [] [] row.ports.property (row.ports.val.length + 2)
  rw [if_pos hdelims] at hports
  have htexts : (places 0 (fields separators row.ports)).foldl
      (fun s f => loadPort row s f.text) s
      = (fields separators row.ports).foldl (loadPort row) s := by
    rw [← List.foldl_map, map_text_places]
  rw [← foldl_loadPort, ← htexts]
  exact congrArg (Option.map _) hports

/-- All rows. -/
lemma foldlM_loadRow (s : Server) (rows : List Row) :
    rows.foldlM loadRow s = some (s.link (rows.flatMap (links s))) := by
  induction rows generalizing s with
  | nil => exact congrArg some (link_nil s).symm
  | cons row rows ih =>
      rw [List.foldlM_cons, loadRow_eq, List.flatMap_cons, ← link_link]
      exact ih (s.link (links s row))

/-- **`LoadRemotes` links to the servers of its cluster**: to one for each field of the port list
of each row, in order, and not to itself. Without a cluster it links to none. -/
theorem loadRemotes_eq (s : Server) (rows : List Row) :
    loadRemotes s rows
      = some (decide (1 ≤ s.r_cluster),
          s.link (if 1 ≤ s.r_cluster then rows.flatMap (links s) else [])) := by
  rw [loadRemotes]
  by_cases hcluster : s.r_cluster < 1
  · have hnot : ¬ 1 ≤ s.r_cluster := Int32.not_le.mpr hcluster
    rw [if_pos hcluster, if_neg hnot, link_nil, decide_eq_false hnot]
  · have hle : 1 ≤ s.r_cluster := Int32.not_lt.mp hcluster
    rw [if_neg hcluster, if_pos hle, foldlM_loadRow, decide_eq_true hle]
    rfl

/-- Whether a server to link to is the server itself; `Connect` is called with one less than the
port of the list. -/
def Server.IsItself (s : Server) (r : RemoteServer) : Prop :=
  r.host = s.LocalIP ∧ r.port = (s.ServerPort - 1).toUInt32

/-- A row stands for no server that is the server itself. -/
lemma not_isItself_of_mem_links {s : Server} {row : Row} {r : RemoteServer} (hr : r ∈ links s row) :
    ¬ s.IsItself r := by
  rintro ⟨hhost, hport⟩
  rw [links] at hr
  split_ifs at hr with hcluster
  · exact List.not_mem_nil hr
  · obtain ⟨p, hp, rfl⟩ := List.mem_map.mp hr
    have hself : s.isSelf row p = false := by simpa using (List.mem_filter.mp hp).2
    have hserver : s.ServerPort = atoi p := by
      have hsub := congrArg UInt32.toInt32 hport
      rw [remote, Int32.toInt32_toUInt32, Int32.toInt32_toUInt32, Int32.sub_left_inj] at hsub
      exact hsub.symm
    have hip : s.LocalIP = row.ip := hhost.symm
    rw [Server.isSelf, hip, hserver] at hself
    simp at hself

/-- **A server never links to itself**: if it did not before `LoadRemotes`, it does not behind. -/
theorem not_self (s : Server) (rows : List Row) {found : Bool} {s' : Server}
    (h : loadRemotes s rows = some (found, s')) (hs : ∀ r ∈ s.RemoteServers, ¬ s.IsItself r) :
    ∀ r ∈ s'.RemoteServers, ¬ s'.IsItself r := by
  rw [loadRemotes_eq, Option.some.injEq, Prod.mk.injEq] at h
  obtain ⟨-, rfl⟩ := h
  intro r hr
  rcases List.mem_append.mp hr with hr | hr
  · exact hs r hr
  · split_ifs at hr
    · obtain ⟨row, -, hr⟩ := List.mem_flatMap.mp hr
      exact not_isItself_of_mem_links hr
    · exact absurd hr List.not_mem_nil

end Remotes

end Napd
