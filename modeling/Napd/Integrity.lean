import Napd.Library.Runs
import Napd.Tokens

/-!
The counts of files and users: `Server::RemoveFile` and `Server::RemoveAllFiles` of `share.cc`,
and `CheckIntegrity` of `scheduled.cc`. They are compiled out at this commit.

* `Server`: the counts, the clients and their files, and the table of file ids.
* `Outside`: the functions that the source calls and does not have, among them
  `Client::RemoveFile`. They may do anything.
* `removeFileNamed`, `removeFile`, `removeAllFiles`, `checkIntegrity`: the functions of the source;
  `step`: one call.
* `Server.remote`: the share of the linked servers in the counts, as differences.
* `remote_checkIntegrity`: an adjusted count of files leaves no share of linked servers.
* `remote_conserved_iff`: **the share is the same in all states that a sequence of calls reaches if
  and only if no call of `CheckIntegrity` adjusts the count of files while there is such a share.**
-/

namespace Napd

namespace Integrity

/-- `FILENAME_MAXBUF`. -/
def FILENAME_MAXBUF : ℕ := 200

/-- What is read of a file: its address, its id and its size. -/
structure File where
  addr : ℕ
  id : Text
  size : U32

/-- What is said to a client. -/
inductive Reply where
  | ERROR_MESSAGE (text : String)
  | REMOVE_ALL_FILES (count : U32)

/-- The counts of the server; the clients in its table, which are known by their addresses; the
files of each client, the table of file ids, and what was said to clients. -/
structure Server where
  TotalUsers : U32
  VirtualUsers : U32
  TotalFiles : U32
  VirtualFiles : U32
  TotalSize : UInt64
  VirtualSize : UInt64
  Clients : List ℕ
  files : ℕ → List File
  FileIDTable : ℕ → List (File × ℕ)
  said : List (ℕ × Reply)

/-- What the source does not have: the two `Client::RemoveFile`, which give the files that are left
and the one that was removed, the hash of an id, and the size of the table. -/
structure Outside where
  removeNamed : List File → List U8 → List File × Option File
  remove : List File → File → List File × Option File
  Hash : Text → ℕ → ℕ
  FILE_HASH_TABLESIZE : ℕ

variable (o : Outside)

/-- `caller->Say`. -/
def Server.say (s : Server) (caller : ℕ) (r : Reply) : Server :=
  { s with said := s.said ++ [(caller, r)] }

/-- The files of a client after `Client::RemoveFile`. -/
def Server.setFiles (s : Server) (caller : ℕ) (fs : List File) : Server :=
  { s with files := Function.update s.files caller fs }

/-- `Server::RemoveFileHash`: the entry of the file leaves the table, if there is one. -/
def removeFileHash (s : Server) (file : File) : Server :=
  let index := o.Hash file.id o.FILE_HASH_TABLESIZE
  { s with
    FileIDTable := Function.update s.FileIDTable index
      ((s.FileIDTable index).eraseP fun e => e.1.addr = file.addr) }

/-- The lines that `RemoveFile` and `RemoveAllFiles` share, for a file that a client had. -/
def forget (s : Server) (file : File) : Server :=
  let s := removeFileHash o s file
  { s with
    TotalFiles := s.TotalFiles - 1
    VirtualFiles := s.VirtualFiles - 1
    TotalSize := s.TotalSize - file.size.toUInt64
    VirtualSize := s.VirtualSize - file.size.toUInt64 }

/-- `Server::RemoveFile(Client *, char *)`. -/
def removeFileNamed (s : Server) (caller : ℕ) (data : Text) : Option Server :=
  (Tokenizer.getNextArgumentUpTo (data.val ++ [0]) (some 0) FILENAME_MAXBUF).map fun a =>
    match a.found, a.start with
    | true, some filename =>
        let r := o.removeNamed (s.files caller) (cstring (a.mem.drop filename))
        let s := s.setFiles caller r.1
        match r.2 with
        | none => s
        | some file => forget o s file
    | _, _ => s.say caller (.ERROR_MESSAGE "parameter is unparsable")

/-- `Server::RemoveFile(Client *, File *)`. -/
def removeFile (s : Server) (client : ℕ) (file : File) : Server :=
  forget o (s.setFiles client (o.remove (s.files client) file).1) file

/-- The body of the loop of `Server::RemoveAllFiles`. -/
def removeAllStep (caller : ℕ) (r : Server × U32) (i : File) : Server × U32 :=
  let c := o.remove (r.1.files caller) i
  let s := r.1.setFiles caller c.1
  match c.2 with
  | none => (s, r.2)
  | some file => (forget o s file, r.2 + 1)

/-- `Server::RemoveAllFiles`. -/
def removeAllFiles (s : Server) (caller : ℕ) : Server :=
  let r := (s.files caller).foldl (removeAllStep o caller) (s, 0)
  r.1.say caller (.REMOVE_ALL_FILES r.2)

/-- `ucount` behind the loop of `CheckIntegrity`. -/
def Server.ucount (s : Server) : U32 := s.Clients.foldl (fun n _ => n + 1) 0

/-- `fcount` behind the loop of `CheckIntegrity`. -/
def Server.fcount (s : Server) : U32 :=
  s.Clients.foldl (fun n c => n + UInt32.ofNat (s.files c).length) 0

/-- The first half of `CheckIntegrity`, about the users. -/
def checkUsers (s : Server) : Bool × Server :=
  if s.ucount ≠ s.TotalUsers then
    (false, { s with
      VirtualUsers := s.VirtualUsers + (s.ucount - s.TotalUsers)
      TotalUsers := s.ucount })
  else (true, s)

/-- `CheckIntegrity`. -/
def checkIntegrity (s : Server) : Bool × Server :=
  let r := checkUsers s
  if s.fcount ≠ r.2.TotalFiles then
    (false, { r.2 with
      VirtualFiles := r.2.VirtualFiles + (s.fcount - r.2.VirtualFiles)
      TotalFiles := s.fcount })
  else r

/-- The calls. -/
inductive Call where
  | removeFileNamed (caller : ℕ) (data : Text)
  | removeFile (client : ℕ) (file : File)
  | removeAllFiles (caller : ℕ)
  | checkIntegrity

/-- A call. -/
def step (s : Server) : Call → Option Server
  | .removeFileNamed caller data => Integrity.removeFileNamed o s caller data
  | .removeFile client file => some (Integrity.removeFile o s client file)
  | .removeAllFiles caller => some (Integrity.removeAllFiles o s caller)
  | .checkIntegrity => some (Integrity.checkIntegrity s).2

/-! ### The share of the linked servers -/

/-- The files and the users that linked servers contribute to the counts. -/
def Server.remote (s : Server) : U32 × U32 :=
  (s.VirtualFiles - s.TotalFiles, s.VirtualUsers - s.TotalUsers)

@[simp] lemma remote_say (s : Server) (caller : ℕ) (r : Reply) :
    (s.say caller r).remote = s.remote := rfl

@[simp] lemma remote_setFiles (s : Server) (caller : ℕ) (fs : List File) :
    (s.setFiles caller fs).remote = s.remote := rfl

/-- One file less in both counts. -/
@[simp] lemma remote_forget (s : Server) (file : File) : (forget o s file).remote = s.remote := by
  have h : s.VirtualFiles - 1 - (s.TotalFiles - 1) = s.VirtualFiles - s.TotalFiles := by grind
  rw [Server.remote, Server.remote, ← h]
  rfl

lemma remote_removeFileNamed {s s' : Server} {caller : ℕ} {data : Text}
    (h : removeFileNamed o s caller data = some s') : s'.remote = s.remote := by
  obtain ⟨a, -, rfl⟩ := Option.map_eq_some_iff.mp h
  split
  · dsimp only
    split
    · exact remote_setFiles s caller _
    · rw [remote_forget, remote_setFiles]
  · exact remote_say s caller _

lemma remote_removeFile (s : Server) (client : ℕ) (file : File) :
    (removeFile o s client file).remote = s.remote := by
  rw [removeFile, remote_forget, remote_setFiles]

lemma remote_removeAllStep (caller : ℕ) (r : Server × U32) (i : File) :
    (removeAllStep o caller r i).1.remote = r.1.remote := by
  rw [removeAllStep]
  split
  · exact remote_setFiles _ _ _
  · rw [remote_forget, remote_setFiles]

lemma remote_removeAllFiles (s : Server) (caller : ℕ) :
    (removeAllFiles o s caller).remote = s.remote := by
  have hloop : ∀ (l : List File) (r : Server × U32),
      (l.foldl (removeAllStep o caller) r).1.remote = r.1.remote := by
    intro l
    induction l with
    | nil => exact fun _ => rfl
    | cons i l ih => exact fun r => (ih _).trans (remote_removeAllStep o caller r i)
  rw [removeAllFiles, remote_say, hloop]

lemma remote_checkUsers (s : Server) : (checkUsers s).2.remote = s.remote := by
  have h : s.VirtualUsers + (s.ucount - s.TotalUsers) - s.ucount
      = s.VirtualUsers - s.TotalUsers := by grind
  rw [checkUsers]
  split_ifs
  · rw [Server.remote, Server.remote, ← h]
  · rfl

/-- The count of the files takes the place of both counts, so that nothing is left to linked
servers. -/
lemma remote_checkIntegrity (s : Server) : (checkIntegrity s).2.remote = s.remote ↔
    s.fcount = s.TotalFiles ∨ s.VirtualFiles = s.TotalFiles := by
  have husers := remote_checkUsers s
  have hfiles : (checkUsers s).2.TotalFiles = s.TotalFiles := by
    rw [checkUsers]
    split_ifs <;> rfl
  have hzero : (checkUsers s).2.VirtualFiles + (s.fcount - (checkUsers s).2.VirtualFiles)
      - s.fcount = 0 := by grind
  rw [checkIntegrity]
  dsimp only
  rw [hfiles]
  split_ifs with h
  · have hremote : Server.remote { (checkUsers s).2 with
        VirtualFiles := (checkUsers s).2.VirtualFiles
          + (s.fcount - (checkUsers s).2.VirtualFiles)
        TotalFiles := s.fcount } = (0, s.VirtualUsers - s.TotalUsers) := by
      rw [Server.remote, hzero]
      exact congrArg (Prod.mk 0) (congrArg Prod.snd husers)
    have hnone : 0 = s.VirtualFiles - s.TotalFiles ↔ s.VirtualFiles = s.TotalFiles := by grind
    rw [hremote, Server.remote, Prod.mk.injEq, and_iff_left rfl, hnone]
    exact ⟨Or.inr, fun hor => hor.resolve_left h⟩
  · exact ⟨fun _ => Or.inl (not_not.mp h), fun _ => husers⟩

/-- A call of `CheckIntegrity` finds the count of files right, or no share of linked servers
in it. -/
def Meets (s : Server) : Call → Prop
  | .checkIntegrity => s.fcount = s.TotalFiles ∨ s.VirtualFiles = s.TotalFiles
  | _ => True

/-- What one call does to the share. -/
lemma remote_step (s : Server) (c : Call) :
    (∀ s', step o s c = some s' → s'.remote = s.remote) ↔ Meets s c := by
  cases c with
  | removeFileNamed caller data =>
      exact ⟨fun _ => trivial, fun _ s' h => remote_removeFileNamed o h⟩
  | removeFile client file =>
      refine ⟨fun _ => trivial, fun _ s' h => ?_⟩
      exact Option.some.inj h ▸ remote_removeFile o s client file
  | removeAllFiles caller =>
      exact ⟨fun _ => trivial, fun _ s' h => Option.some.inj h ▸ remote_removeAllFiles o s caller⟩
  | checkIntegrity =>
      rw [Meets, ← remote_checkIntegrity s]
      exact ⟨fun h => h _ rfl, fun h s' hs => Option.some.inj hs ▸ h⟩

/-- A server with a user and his file, which are not in its counts, and with five files of a linked
server. -/
def drifted : Server where
  TotalUsers := 0
  VirtualUsers := 0
  TotalFiles := 0
  VirtualFiles := 5
  TotalSize := 0
  VirtualSize := 0
  Clients := [1]
  files := fun _ => [⟨2, ⟨[], zero_notMem_nil⟩, 0⟩]
  FileIDTable := fun _ => []
  said := []

/-- `CheckIntegrity` takes the five files of the linked server away. -/
theorem not_conserved_drifted : ¬ ∀ (o : Outside) (s : Server) (calls : List Call) (s' : Server),
    Runs.run (step o) s calls = some s' → s'.remote = s.remote := by
  intro h
  have hremote : (checkIntegrity drifted).2.remote = drifted.remote :=
    h ⟨fun fs _ => (fs, none), fun fs _ => (fs, none), fun _ _ => 0, 0⟩ drifted [.checkIntegrity]
      _ rfl
  exact absurd hremote (by decide)

/-- **The share of the linked servers is conserved, as far as `CheckIntegrity` finds the count of
files right.** -/
theorem remote_conserved_iff (o : Outside) (s : Server) (calls : List Call) :
    (∀ pre s', pre <+: calls → Runs.run (step o) s pre = some s' → s'.remote = s.remote) ↔
      Runs.Always (step o) Meets s calls := by
  rw [Runs.constant_iff]
  exact Runs.Always.iff_of_keeps (I := fun _ => True) (fun _ _ _ _ _ _ => trivial)
    (fun s c _ => remote_step o s c) trivial

end Integrity

end Napd
