import Napd.Numbers
import Napd.Tokens

/-!
`Server::AddPathBlock` of `share.cc`, which is compiled out at this commit: a path, and entries of
a filename, an id and four numbers each.

* `getNextNumber`: `get_next_argument` for a number; `getNumbers`: some of them, one after the
  other.
* `AddFile`: a call of `AddFile`, with the pointers to the filename and the id that its text was
  made of.
* `getEntry`, `addPathLoop`, `addPathBlock`: the function of the source, on a block that holds the data
  of the command. The loop counts down from a number that it does not reach.
-/

namespace Napd

namespace PathBlock

open Tokenizer

/-- `FILENAME_MAXBUF`. -/
def FILENAME_MAXBUF : ℕ := 200

/-- `FILEID_MAXBUF`. -/
def FILEID_MAXBUF : ℕ := 50

/-- The block, the cursor, and what was read; `none` when the call returned `false`. -/
structure Got (α : Type) where
  mem : List U8
  src : Option ℕ
  value : Option α

/-- `get_next_argument(char **src, char *&dst, unsigned long limit)`: where `dst` points. -/
def getNextString (m : List U8) (src : Option ℕ) (limit : ℕ) : Option (Got ℕ) :=
  (getNextArgumentUpTo m src limit).map fun a => ⟨a.mem, a.src, if a.found then a.start else none⟩

/-- `get_next_argument(char **src, unsigned long &field)`. -/
def getNextNumber (m : List U8) (src : Option ℕ) : Option (Got U32) :=
  (getNextArgument m src).map fun a =>
    ⟨a.mem, a.src, if a.found then a.start.map fun p => strtoul (cstring (a.mem.drop p)) else none⟩

/-- Calls for `n` numbers, up to the first that returns `false`. -/
def getNumbers : ℕ → List U8 → Option ℕ → Option (Got (List U32))
  | 0, m, src => some ⟨m, src, some []⟩
  | n + 1, m, src =>
      (getNextNumber m src).bind fun g =>
        match g.value with
        | none => some ⟨g.mem, g.src, none⟩
        | some x => (getNumbers n g.mem g.src).map fun r => { r with value := r.value.map (x :: ·) }

/-- What `sprintf(addfile_str, "\"%s%s\" %s %lu %lu %lu %lu", …)` writes. -/
def addfileText (path filename id : List U8) (numbers : List U32) : List U8 :=
  quote :: (path ++ (filename ++ quote :: space ::
    (id ++ numbers.flatMap fun x => space :: decimal x.toNat)))

/-- A call of `AddFile`: the pointers `filename` and `id`, and the text of the command. -/
structure AddFile where
  filename : ℕ
  id : ℕ
  text : List U8
  deriving DecidableEq

/-- The calls of `AddFile`, and what was said to the caller. -/
structure Result where
  calls : List AddFile
  said : List String

/-- The id and the numbers behind a filename, and the call of `AddFile` that is made of them. -/
def getEntry (path filename : ℕ) (m : List U8) (src : Option ℕ) : Option (Got AddFile) :=
  (getNextString m src FILEID_MAXBUF).bind fun i =>
    match i.value with
    | none => some ⟨i.mem, i.src, none⟩
    | some id =>
        (getNumbers 4 i.mem i.src).map fun g =>
          ⟨g.mem, g.src, g.value.map fun numbers =>
            ⟨filename, id, addfileText (cstring (g.mem.drop path))
              (cstring (g.mem.drop filename)) (cstring (g.mem.drop id)) numbers⟩⟩

/-- The loop of `AddPathBlock`. -/
def addPathLoop (path pathlen : ℕ) : ℕ → List U8 → Option ℕ → Option Result
  | 0, _, _ => none
  | n + 1, m, src =>
      (getNextString m src FILENAME_MAXBUF).bind fun f =>
        match f.value with
        | none => some ⟨[], []⟩
        | some filename =>
            if pathlen + (cstring (f.mem.drop filename)).length < FILENAME_MAXBUF then
              (getEntry path filename f.mem f.src).bind fun e =>
                match e.value with
                | none => some ⟨[], ["parameters are unparsable"]⟩
                | some call =>
                    (addPathLoop path pathlen n e.mem e.src).map fun r =>
                      { r with calls := call :: r.calls }
            else addPathLoop path pathlen n f.mem f.src

/-- `Server::AddPathBlock`, for a command with this data. -/
def addPathBlock (data : Text) : Option Result :=
  (getNextString (data.val ++ [0]) (some 0) FILENAME_MAXBUF).bind fun p =>
    match p.value with
    | none => some ⟨[], ["parameter is unparsable"]⟩
    | some path =>
        addPathLoop path (cstring (p.mem.drop path)).length (data.val.length + 1) p.mem p.src

end PathBlock

end Napd
