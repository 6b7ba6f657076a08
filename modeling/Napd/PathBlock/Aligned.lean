import Napd.PathBlock.Reads

/-!
Where the entries of a path block stay in step with the cursor.

* `Entry`, `Payload`: the tokens of an entry; a string that reads as a path and entries.
* `blockCalls`: the calls of `AddFile` that the loop makes of the tokens behind the path;
  `addPathLoop_eq`: the loop does make these.
* `Quiet`, `Aligned`: tokens of which no call is made; entries behind each of which the next one
  is read, or nothing any more. `blockCalls_iff` compares the calls with those of the entries.
* `addPathBlock_iff`: **a path block equals its single adds if and only if every entry that is too
  long either has nothing but tokens too long behind its filename, or nothing to be added behind
  it.**
-/

namespace Napd.PathBlock

open Tokenizer

/-! ### The payload -/

/-- The tokens of an entry. -/
structure Entry where
  filename : Token
  id : Token
  size : Token
  bitrate : Token
  frequency : Token
  length : Token

/-- What stands behind the filename. -/
def Entry.behind (e : Entry) : List Token := [e.id, e.size, e.bitrate, e.frequency, e.length]

def Entry.tokens (e : Entry) : List Token := e.filename :: e.behind

/-- The data of a command: the tokenizer returns a path, and the tokens of entries. -/
structure Payload where
  data : Text
  path : Token
  entries : List Entry
  reads : Reads (path :: entries.flatMap Entry.tokens) (data.val ++ [0]) (some 0)

/-- The path and a filename fit together. -/
def Short (path : List U8) (t : Token) : Prop := path.length + t.text.length < FILENAME_MAXBUF

instance (path : List U8) (t : Token) : Decidable (Short path t) :=
  inferInstanceAs (Decidable (path.length + t.text.length < FILENAME_MAXBUF))

/-- The call of `AddFile` for a filename, an id and four numbers. -/
def addFile (path : List U8) (filename id : Token) (numbers : List Token) : AddFile :=
  ⟨filename.start, id.start,
    addfileText path filename.text id.text (numbers.map fun t => strtoul t.text)⟩

/-- The call of `AddFile` for an entry. -/
def Entry.add (path : List U8) (e : Entry) : AddFile :=
  addFile path e.filename e.id [e.size, e.bitrate, e.frequency, e.length]

/-- The single adds: one for each entry whose filename fits, in order. -/
def singleAdds (path : List U8) (entries : List Entry) : List AddFile :=
  (entries.filter fun e => Short path e.filename).map (Entry.add path)

/-! ### The loop, on tokens -/

/-- The calls of `AddFile` that the loop makes of the tokens behind the path. -/
def blockCalls (path : List U8) : List Token → List AddFile
  | [] => []
  | f :: ts =>
      if FILENAME_MAXBUF ≤ f.text.length then []
      else if Short path f then
        match ts with
        | id :: a :: b :: c :: d :: rest =>
            if id.text.length < FILEID_MAXBUF then
              addFile path f id [a, b, c, d] :: blockCalls path rest
            else []
        | _ => []
      else blockCalls path ts

/-- An entry cannot be read: tokens are missing, or its id is too long. -/
def Refused (ts : List Token) : Prop :=
  ts.length < 5 ∨ ∀ id ∈ ts.head?, FILEID_MAXBUF ≤ id.text.length

lemma exists_of_not_refused {ts : List Token} (h : ¬ Refused ts) : ∃ id a b c d rest,
    ts = id :: a :: b :: c :: d :: rest ∧ id.text.length < FILEID_MAXBUF := by
  obtain ⟨hlen, hid⟩ := not_or.mp h
  match ts with
  | id :: a :: b :: c :: d :: rest =>
      refine ⟨id, a, b, c, d, rest, rfl, ?_⟩
      simpa using hid
  | [] | [_] | [_, _] | [_, _, _] | [_, _, _, _] => exact absurd (by simp) hlen

lemma blockCalls_of_le {path : List U8} {f : Token} (h : FILENAME_MAXBUF ≤ f.text.length)
    (ts : List Token) : blockCalls path (f :: ts) = [] := by
  rw [blockCalls.eq_def]
  exact if_pos h

lemma Short.lt {path : List U8} {f : Token} (h : Short path f) :
    ¬ FILENAME_MAXBUF ≤ f.text.length :=
  not_le.mpr (lt_of_le_of_lt (Nat.le_add_left _ _) h)

lemma blockCalls_of_refused {path : List U8} {f : Token} (hf : Short path f) {ts : List Token}
    (h : Refused ts) : blockCalls path (f :: ts) = [] := by
  rw [blockCalls.eq_def]
  dsimp only
  rw [if_neg hf.lt, if_pos hf]
  split
  · rw [if_neg]
    rcases h with hlen | hid
    · simp only [List.length_cons] at hlen
      omega
    · simpa using hid
  · rfl

lemma blockCalls_of_short {path : List U8} {f id a b c d : Token} (hf : Short path f)
    (hid : id.text.length < FILEID_MAXBUF) (rest : List Token) :
    blockCalls path (f :: id :: a :: b :: c :: d :: rest)
      = addFile path f id [a, b, c, d] :: blockCalls path rest := by
  rw [blockCalls.eq_def]
  dsimp only
  rw [if_neg hf.lt, if_pos hf, if_pos hid]

/-- A filename that is passed over. -/
def Skipped (path : List U8) (t : Token) : Prop :=
  t.text.length < FILENAME_MAXBUF ∧ ¬ Short path t

lemma blockCalls_of_skipped {path : List U8} {f : Token} (h : Skipped path f) (ts : List Token) :
    blockCalls path (f :: ts) = blockCalls path ts := by
  rw [blockCalls.eq_def]
  dsimp only
  rw [if_neg (not_le.mpr h.1), if_neg h.2]

/-- The id and the numbers behind a filename are read. -/
lemma getEntry_some {s : List U8} (hs : 0 ∉ s) {path f id a b c d : Token} {rest : List Token}
    {m : List U8} {src : Option ℕ} (h : Before s (id :: a :: b :: c :: d :: rest) m src)
    (hpath : Safe m src path) (hf : Safe m src f) (hid : id.text.length < FILEID_MAXBUF) :
    ∃ g, getEntry path.start f.start m src = some g ∧
      g.value = some (addFile path.text f id [a, b, c, d]) ∧ Before s rest g.mem g.src ∧
      Safe g.mem g.src path := by
  obtain ⟨i, hi, hvalue, hbefore, hsafe, hkeep⟩ := getNextString_cons hs h FILEID_MAXBUF
  obtain ⟨g, hg, hnumbers⟩ := getNumbers_eq hs (n := 4) hbefore
  rw [if_pos (by simp)] at hnumbers
  obtain ⟨hval, hrest, hkeep'⟩ := hnumbers
  have hpath' := hkeep' path (hkeep path hpath)
  refine ⟨⟨g.mem, g.src, some (addFile path.text f id [a, b, c, d])⟩, ?_, rfl, hrest, hpath'⟩
  rw [getEntry, hi, Option.bind_some, hvalue, if_pos hid]
  dsimp only
  rw [hg, Option.map_some, hval, hpath'.1.cstring_eq, (hkeep' f (hkeep f hf)).1.cstring_eq,
    (hkeep' id hsafe).1.cstring_eq]
  rfl

/-- They are refused. -/
lemma getEntry_none {s : List U8} (hs : 0 ∉ s) (path f : ℕ) {ts : List Token} {m : List U8}
    {src : Option ℕ} (h : Before s ts m src) (hts : Refused ts) :
    ∃ g, getEntry path f m src = some g ∧ g.value = none := by
  cases ts with
  | nil =>
      obtain ⟨i, hi, hvalue⟩ := getNextString_nil h FILEID_MAXBUF
      exact ⟨⟨i.mem, i.src, none⟩, by rw [getEntry, hi, Option.bind_some, hvalue], rfl⟩
  | cons id ts =>
      obtain ⟨i, hi, hvalue, hbefore, -⟩ := getNextString_cons hs h FILEID_MAXBUF
      rw [getEntry, hi, Option.bind_some, hvalue]
      split_ifs with hid
      · obtain ⟨g, hg, hnumbers⟩ := getNumbers_eq hs (n := 4) hbefore
        rcases hts with hlen | hlong
        · rw [List.length_cons] at hlen
          rw [if_neg (by omega)] at hnumbers
          refine ⟨⟨g.mem, g.src, none⟩, ?_, rfl⟩
          dsimp only
          rw [hg, Option.map_some, hnumbers]
          rfl
        · exact absurd (hlong id rfl) (not_le.mpr hid)
      · exact ⟨_, rfl, rfl⟩

/-- The loop makes these calls. -/
lemma addPathLoop_eq {s : List U8} (hs : 0 ∉ s) {path : Token} {n : ℕ} {ts : List Token}
    {m : List U8} {src : Option ℕ} (h : Before s ts m src) (hpath : Safe m src path)
    (hn : ts.length < n) :
    ∃ r, addPathLoop path.start path.text.length n m src = some r ∧
      r.calls = blockCalls path.text ts := by
  induction n generalizing ts m src with
  | zero => exact absurd hn (Nat.not_lt_zero _)
  | succ n ih =>
      cases ts with
      | nil =>
          obtain ⟨g, hg, hvalue⟩ := getNextString_nil h FILENAME_MAXBUF
          exact ⟨⟨[], []⟩, by rw [addPathLoop, hg, Option.bind_some, hvalue], rfl⟩
      | cons f ts =>
          obtain ⟨g, hg, hvalue, hbefore, hsafe, hkeep⟩ := getNextString_cons hs h FILENAME_MAXBUF
          rw [List.length_cons] at hn
          rw [addPathLoop, hg, Option.bind_some, hvalue]
          by_cases hlong : FILENAME_MAXBUF ≤ f.text.length
          · rw [if_neg (not_lt.mpr hlong), blockCalls_of_le hlong]
            exact ⟨_, rfl, rfl⟩
          · rw [if_pos (not_le.mp hlong)]
            dsimp only
            rw [hsafe.1.cstring_eq]
            by_cases hshort : Short path.text f
            · rw [if_pos (show path.text.length + f.text.length < FILENAME_MAXBUF from hshort)]
              by_cases hrefused : Refused ts
              · obtain ⟨e, he, hnone⟩ := getEntry_none hs path.start f.start hbefore hrefused
                rw [he, Option.bind_some, hnone, blockCalls_of_refused hshort hrefused]
                exact ⟨_, rfl, rfl⟩
              · obtain ⟨id, a, b, c, d, rest, rfl, hid⟩ := exists_of_not_refused hrefused
                obtain ⟨e, he, hsome, hrest, hpath'⟩ :=
                  getEntry_some hs hbefore (hkeep path hpath) hsafe hid
                simp only [List.length_cons] at hn
                obtain ⟨r, hr, hcalls⟩ := ih hrest hpath' (by omega)
                rw [he, Option.bind_some, hsome, blockCalls_of_short hshort hid, ← hcalls]
                dsimp only
                rw [hr]
                exact ⟨_, rfl, rfl⟩
            · rw [if_neg (show ¬ path.text.length + f.text.length < FILENAME_MAXBUF from hshort),
                blockCalls_of_skipped ⟨not_le.mp hlong, hshort⟩]
              exact ih hbefore (hkeep path hpath) (by omega)

/-! ### The condition -/

/-- Tokens of which the loop makes no call: the first one that is not passed over ends it. -/
def Quiet (path : List U8) : List Token → Prop
  | [] => True
  | t :: ts => FILENAME_MAXBUF ≤ t.text.length ∨ Short path t ∧ Refused ts ∨
      Skipped path t ∧ Quiet path ts

/-- Every entry to be added can be read. Behind one that is too long the next is read as it
should be, as the loop passes over its other tokens as well, or there is none to be added and no
call is made of what is behind its filename. -/
def Aligned (path : List U8) : List Entry → Prop
  | [] => True
  | e :: es =>
      if Short path e.filename then e.id.text.length < FILEID_MAXBUF ∧ Aligned path es
      else (∀ t ∈ e.tokens, Skipped path t) ∧ Aligned path es ∨
        (∀ e' ∈ es, ¬ Short path e'.filename) ∧
          (FILENAME_MAXBUF ≤ e.filename.text.length ∨
            Quiet path (e.behind ++ es.flatMap Entry.tokens))

/-- A token ends the loop, is read as a filename, or is passed over. -/
lemma token_cases (path : List U8) (t : Token) :
    FILENAME_MAXBUF ≤ t.text.length ∨ Short path t ∨ Skipped path t := by
  rw [Skipped, ← not_le]
  tauto

lemma quiet_iff {path : List U8} {ts : List Token} :
    Quiet path ts ↔ blockCalls path ts = [] := by
  induction ts with
  | nil => exact ⟨fun _ => rfl, fun _ => trivial⟩
  | cons t ts ih =>
      rw [Quiet]
      rcases token_cases path t with hlong | hshort | hskip
      · exact ⟨fun _ => blockCalls_of_le hlong ts, fun _ => Or.inl hlong⟩
      · by_cases hrefused : Refused ts
        · exact ⟨fun _ => blockCalls_of_refused hshort hrefused,
            fun _ => Or.inr (Or.inl ⟨hshort, hrefused⟩)⟩
        · obtain ⟨id, a, b, c, d, rest, rfl, hid⟩ := exists_of_not_refused hrefused
          rw [blockCalls_of_short hshort hid]
          refine ⟨fun h => ?_, fun h => absurd h (List.cons_ne_nil _ _)⟩
          rcases h with hlong | ⟨-, hr⟩ | ⟨hskip, -⟩
          · exact absurd hlong hshort.lt
          · exact absurd hr hrefused
          · exact absurd hshort hskip.2
      · rw [blockCalls_of_skipped hskip, ← ih]
        refine ⟨fun h => ?_, fun h => Or.inr (Or.inr ⟨hskip, h⟩)⟩
        rcases h with hlong | ⟨hshort, -⟩ | ⟨-, hq⟩
        · exact absurd hskip.1 (not_lt.mpr hlong)
        · exact absurd hshort hskip.2
        · exact hq

lemma blockCalls_append {path : List U8} {ts : List Token} (h : ∀ t ∈ ts, Skipped path t)
    (rest : List Token) : blockCalls path (ts ++ rest) = blockCalls path rest := by
  induction ts with
  | nil => rfl
  | cons t ts ih =>
      rw [List.cons_append, blockCalls_of_skipped (h t List.mem_cons_self),
        ih fun u hu => h u (List.mem_cons_of_mem _ hu)]

/-- If not all of some tokens are passed over, the first call is made of one of them. -/
lemma first_call {path : List U8} {ts rest : List Token} (h : ¬ ∀ t ∈ ts, Skipped path t)
    {c : AddFile} {cs : List AddFile} (hcs : blockCalls path (ts ++ rest) = c :: cs) :
    ∃ t ∈ ts, c.filename = t.start := by
  induction ts with
  | nil => exact absurd (fun t ht => absurd ht List.not_mem_nil) h
  | cons t ts ih =>
      rw [List.cons_append] at hcs
      rcases token_cases path t with hlong | hshort | hskip
      · rw [blockCalls_of_le hlong] at hcs
        exact absurd hcs.symm (List.cons_ne_nil _ _)
      · by_cases hrefused : Refused (ts ++ rest)
        · rw [blockCalls_of_refused hshort hrefused] at hcs
          exact absurd hcs.symm (List.cons_ne_nil _ _)
        · obtain ⟨id, a, b, c', d, rest', heq, hid⟩ := exists_of_not_refused hrefused
          rw [heq, blockCalls_of_short hshort hid] at hcs
          exact ⟨t, List.mem_cons_self, by rw [← (List.cons.inj hcs).1]; rfl⟩
      · rw [blockCalls_of_skipped hskip] at hcs
        have hrest : ¬ ∀ u ∈ ts, Skipped path u := by
          intro hall
          refine h fun u hu => ?_
          rcases List.mem_cons.mp hu with rfl | hu
          · exact hskip
          · exact hall u hu
        obtain ⟨u, hu, hc⟩ := ih hrest hcs
        exact ⟨u, List.mem_cons_of_mem _ hu, hc⟩

/-- No entry is to be added. -/
lemma singleAdds_eq_nil_iff {path : List U8} {es : List Entry} :
    singleAdds path es = [] ↔ ∀ e ∈ es, ¬ Short path e.filename := by
  rw [singleAdds, List.map_eq_nil_iff, List.filter_eq_nil_iff]
  simp only [decide_eq_true_eq]

/-- A single add is of the filename of an entry. -/
lemma filename_of_mem_singleAdds {path : List U8} {es : List Entry} {c : AddFile}
    (h : c ∈ singleAdds path es) : ∃ e ∈ es, c.filename = e.filename.start := by
  obtain ⟨e, he, rfl⟩ := List.mem_map.mp h
  exact ⟨e, List.mem_of_mem_filter he, rfl⟩

/-- Behind a filename that is too long, but not for the tokenizer. -/
lemma blockCalls_behind_iff {path : List U8} {ts : List Token} {es : List Entry}
    (hordered : (ts ++ es.flatMap Entry.tokens).Pairwise fun t u => t.start < u.start)
    (hts : ¬ ∀ t ∈ ts, Skipped path t) :
    blockCalls path (ts ++ es.flatMap Entry.tokens) = singleAdds path es ↔
      (∀ e ∈ es, ¬ Short path e.filename) ∧ Quiet path (ts ++ es.flatMap Entry.tokens) := by
  rw [quiet_iff, ← singleAdds_eq_nil_iff]
  constructor
  · intro heq
    cases hcs : blockCalls path (ts ++ es.flatMap Entry.tokens) with
    | nil => exact ⟨by rw [← heq, hcs], rfl⟩
    | cons c cs =>
        -- the call is of a token of the entry that is too long, and so of no entry behind it
        obtain ⟨t, ht, hct⟩ := first_call hts hcs
        have hmem : c ∈ singleAdds path es := by
          rw [← heq, hcs]
          exact List.mem_cons_self
        obtain ⟨e, he, hce⟩ := filename_of_mem_singleAdds hmem
        have hlt : t.start < e.filename.start :=
          (List.pairwise_append.mp hordered).2.2 t ht e.filename
            (List.mem_flatMap.mpr ⟨e, he, List.mem_cons_self⟩)
        omega
  · rintro ⟨hnone, hquiet⟩
    rw [hnone, hquiet]

lemma singleAdds_cons_of_short {path : List U8} {e : Entry} (h : Short path e.filename)
    (es : List Entry) : singleAdds path (e :: es) = e.add path :: singleAdds path es := by
  rw [singleAdds, List.filter_cons_of_pos (by simpa using h)]
  rfl

lemma singleAdds_cons_of_not_short {path : List U8} {e : Entry} (h : ¬ Short path e.filename)
    (es : List Entry) : singleAdds path (e :: es) = singleAdds path es := by
  rw [singleAdds, List.filter_cons_of_neg (by simpa using h)]
  rfl

lemma tokens_cons (e : Entry) (es : List Entry) : (e :: es).flatMap Entry.tokens
    = e.filename :: (e.behind ++ es.flatMap Entry.tokens) := rfl

/-- An entry that fits is added, if its id can be read, and the loop goes on behind it. -/
lemma blockCalls_short_iff {path : List U8} {e : Entry} {es : List Entry}
    (h : Short path e.filename) :
    blockCalls path ((e :: es).flatMap Entry.tokens) = singleAdds path (e :: es) ↔
      e.id.text.length < FILEID_MAXBUF ∧
        blockCalls path (es.flatMap Entry.tokens) = singleAdds path es := by
  rw [tokens_cons, singleAdds_cons_of_short h]
  by_cases hid : e.id.text.length < FILEID_MAXBUF
  · have hcalls : blockCalls path (e.filename :: (e.behind ++ es.flatMap Entry.tokens))
        = e.add path :: blockCalls path (es.flatMap Entry.tokens) :=
      blockCalls_of_short h hid _
    rw [hcalls, List.cons_inj_right]
    exact ⟨fun heq => ⟨hid, heq⟩, fun heq => heq.2⟩
  · have hrefused : Refused (e.behind ++ es.flatMap Entry.tokens) :=
      Or.inr fun id hmem => Option.some.inj hmem ▸ not_lt.mp hid
    rw [blockCalls_of_refused h hrefused]
    exact ⟨fun heq => absurd heq.symm (List.cons_ne_nil _ _), fun heq => absurd heq.1 hid⟩

/-- Behind a filename that is passed over, the other tokens are passed over, too, or there must
be nothing to add. -/
lemma blockCalls_skipped_iff {path : List U8} {e : Entry} {es : List Entry}
    (hordered : ((e :: es).flatMap Entry.tokens).Pairwise fun t u => t.start < u.start)
    (h : Skipped path e.filename) :
    blockCalls path ((e :: es).flatMap Entry.tokens) = singleAdds path (e :: es) ↔
      (∀ t ∈ e.tokens, Skipped path t) ∧
        blockCalls path (es.flatMap Entry.tokens) = singleAdds path es ∨
      (∀ e' ∈ es, ¬ Short path e'.filename) ∧
        Quiet path (e.behind ++ es.flatMap Entry.tokens) := by
  rw [tokens_cons] at hordered ⊢
  rw [singleAdds_cons_of_not_short h.2, blockCalls_of_skipped h]
  by_cases hall : ∀ t ∈ e.behind, Skipped path t
  · have htok : ∀ t ∈ e.tokens, Skipped path t := List.forall_mem_cons.mpr ⟨h, hall⟩
    rw [quiet_iff, blockCalls_append hall, ← singleAdds_eq_nil_iff]
    refine ⟨fun heq => Or.inl ⟨htok, heq⟩, fun heq => ?_⟩
    rcases heq with heq | ⟨hnone, hquiet⟩
    · exact heq.2
    · rw [hquiet, hnone]
  · rw [blockCalls_behind_iff (List.pairwise_cons.mp hordered).2 hall, or_iff_right]
    exact fun heq => hall fun t ht => heq.1 t (List.mem_cons_of_mem _ ht)

/-- **The calls of the loop are the single adds if and only if the entries are aligned.** -/
lemma blockCalls_iff {path : List U8} {es : List Entry}
    (hordered : (es.flatMap Entry.tokens).Pairwise fun t u => t.start < u.start) :
    blockCalls path (es.flatMap Entry.tokens) = singleAdds path es ↔ Aligned path es := by
  induction es with
  | nil => exact ⟨fun _ => trivial, fun _ => rfl⟩
  | cons e es ih =>
      have hbehind := (List.pairwise_cons.mp hordered).2
      have ih := ih (List.pairwise_append.mp hbehind).2.1
      rw [Aligned]
      rcases token_cases path e.filename with hlong | hshort | hskip
      · -- the tokenizer refuses the filename, and the loop ends
        have hnot : ¬ Short path e.filename := fun hshort => hshort.lt hlong
        have htok : ¬ ∀ t ∈ e.tokens, Skipped path t := fun hall =>
          absurd (hall e.filename List.mem_cons_self).1 (not_lt.mpr hlong)
        rw [if_neg hnot, tokens_cons, blockCalls_of_le hlong, singleAdds_cons_of_not_short hnot,
          eq_comm, singleAdds_eq_nil_iff]
        exact ⟨fun h => Or.inr ⟨h, Or.inl hlong⟩,
          fun h => (h.resolve_left fun hall => htok hall.1).1⟩
      · rw [if_pos hshort, blockCalls_short_iff hshort, ih]
      · rw [if_neg hskip.2, or_iff_right (not_le.mpr hskip.1),
          blockCalls_skipped_iff hordered hskip, ih]

/-- No filename fits behind a path that is too long itself. -/
lemma blockCalls_of_long {path : List U8} (h : FILENAME_MAXBUF ≤ path.length) (ts : List Token) :
    blockCalls path ts = [] := by
  induction ts with
  | nil => rfl
  | cons t ts ih =>
      rcases token_cases path t with hlong | hshort | hskip
      · exact blockCalls_of_le hlong ts
      · exact absurd (lt_of_le_of_lt (Nat.le_add_right _ _) hshort) (not_lt.mpr h)
      · rw [blockCalls_of_skipped hskip, ih]

/-- The calls of a path block are those that the loop makes of the tokens behind the path. -/
lemma addPathBlock_eq (P : Payload) : ∃ r, addPathBlock P.data = some r ∧
    r.calls = blockCalls P.path.text (P.entries.flatMap Entry.tokens) := by
  have hs := P.data.property
  have hcursor := cursor_start P.data.val
  have hlength := reads_length hs hcursor P.reads
  rw [List.length_cons] at hlength
  obtain ⟨g, hg, hvalue, hbefore, hsafe, -⟩ :=
    getNextString_cons hs ⟨hcursor, P.reads⟩ FILENAME_MAXBUF
  rw [addPathBlock, hg, Option.bind_some, hvalue]
  split_ifs with hpath
  · dsimp only
    rw [hsafe.1.cstring_eq]
    exact addPathLoop_eq hs hbefore hsafe (by omega)
  · exact ⟨_, rfl, (blockCalls_of_long (not_lt.mp hpath) _).symm⟩

/-- A path and a filename of 100 characters each, the id `x` and the numbers 1 to 4; and a second
entry, `f`, `y` and 5 to 8. -/
def tooLong : Payload where
  data := ⟨List.replicate 100 112 ++ [32] ++ List.replicate 100 102 ++
    [32, 120, 32, 49, 32, 50, 32, 51, 32, 52] ++ [32, 102, 32, 121, 32, 53, 32, 54, 32, 55, 32, 56],
    by decide⟩
  path := ⟨0, List.replicate 100 112⟩
  entries := [
    ⟨⟨101, List.replicate 100 102⟩, ⟨202, [120]⟩, ⟨204, [49]⟩, ⟨206, [50]⟩, ⟨208, [51]⟩,
      ⟨210, [52]⟩⟩,
    ⟨⟨212, [102]⟩, ⟨214, [121]⟩, ⟨216, [53]⟩, ⟨218, [54]⟩, ⟨220, [55]⟩, ⟨222, [56]⟩⟩]
  reads := by decide +kernel

/-- The id of the first entry is taken for a filename, and the filename of the second for a
number. -/
theorem not_singleAdds_tooLong : ¬ ∃ r, addPathBlock tooLong.data = some r ∧
    r.calls = singleAdds tooLong.path.text tooLong.entries := by
  rintro ⟨r, hr, hcalls⟩
  have hnames : (addPathBlock tooLong.data).map (fun r => r.calls.map AddFile.filename)
      = some ((singleAdds tooLong.path.text tooLong.entries).map AddFile.filename) := by
    rw [hr, Option.map_some, hcalls]
  exact absurd hnames (by decide +kernel)

/-- **A path block equals its single adds if and only if its entries are aligned.** -/
theorem addPathBlock_iff (P : Payload) :
    (∃ r, addPathBlock P.data = some r ∧ r.calls = singleAdds P.path.text P.entries) ↔
      Aligned P.path.text P.entries := by
  obtain ⟨r, hr, hcalls⟩ := addPathBlock_eq P
  have hordered := (reads_ordered P.data.property (cursor_start P.data.val) P.reads).1
  rw [← blockCalls_iff (List.pairwise_cons.mp hordered).2, ← hcalls]
  refine ⟨?_, fun h => ⟨r, hr, h⟩⟩
  rintro ⟨r', hr', h⟩
  obtain rfl := Option.some.inj (hr.symm.trans hr')
  exact h

end Napd.PathBlock
