import Napd.Command.Packing

/-!
The round trip of a text message.

* `Plain`: the arguments a text message can carry: numbers, and strings that are not empty,
  do not begin with a quote, and hold no quote where they hold a space.
* `next_token`, `last_token`: the tokenizer takes exactly the word in front of it.
* `text_roundTrips_iff`: a list of plain arguments whose text fits in a message is unpacked
  unchanged, but for a string of 65535 bytes, whose announced size is cut to zero.
-/

namespace Napd

namespace Command

open Message Tokenizer Memory

/-! ### Words -/

/-- An argument that a text message can carry. -/
def Plain : ArgData → Prop
  | .integer _ => True
  | .string s => s.val ≠ [] ∧ s.val.head? ≠ some quote ∧ (space ∈ s.val → quote ∉ s.val)
  | .data _ => False

instance (x : ArgData) : Decidable (Plain x) := by
  cases x <;> unfold Plain <;> infer_instance

/-- What an argument says, without the quotes. -/
def content : ArgData → List U8
  | .integer x => formatLong x
  | .string s => s.val
  | .data _ => []

/-- The word of an argument. -/
def word (x : ArgData) : List U8 :=
  if space ∈ content x then quote :: (content x ++ [quote]) else content x

lemma space_notMem_formatLong (x : I32) : space ∉ formatLong x := notMem_formatLong (by decide) rfl

lemma quote_notMem_formatLong (x : I32) : quote ∉ formatLong x := notMem_formatLong (by decide) rfl

lemma argText_of_plain {x : ArgData} (h : Plain x) : argText x = some (word x) := by
  cases x with
  | integer n => rw [argText, word, content, if_neg (space_notMem_formatLong n)]
  | string s =>
      rw [argText, word, content]
      split_ifs <;> rfl
  | data bytes => exact absurd h (by simp [Plain])

lemma content_ne_nil {x : ArgData} (h : Plain x) : content x ≠ [] := by
  cases x with
  | integer n => exact formatLong_ne_nil n
  | string s => exact h.1
  | data bytes => exact absurd h (by simp [Plain])

lemma zero_notMem_content (x : ArgData) : 0 ∉ content x := by
  cases x with
  | integer n => exact zero_notMem_formatLong n
  | string s => exact s.property
  | data bytes => simp [content]

lemma content_head {x : ArgData} (h : Plain x) : (content x).head? ≠ some quote := by
  cases x with
  | integer n => exact fun hhead => quote_notMem_formatLong n (List.mem_of_mem_head? hhead)
  | string s => exact h.2.1
  | data bytes => simp [content]

lemma quote_notMem_content {x : ArgData} (h : Plain x) (hs : space ∈ content x) :
    quote ∉ content x := by
  cases x with
  | integer n => exact absurd hs (space_notMem_formatLong n)
  | string s => exact h.2.2 hs
  | data bytes => simp [content]

lemma zero_notMem_word (x : ArgData) : 0 ∉ word x := by
  have h0 := zero_notMem_content x
  rw [word]
  split_ifs
  · simp [h0, quote]
  · exact h0

lemma word_ne_nil {x : ArgData} (h : Plain x) : word x ≠ [] := by
  rw [word]
  split_ifs
  · exact List.cons_ne_nil _ _
  · exact content_ne_nil h

/-- No word begins with a space. -/
lemma word_head {x : ArgData} (rest : List U8) (h : Plain x) :
    (word x ++ rest).head? ≠ some space := by
  obtain ⟨b, t, hbt⟩ := List.exists_cons_of_ne_nil (word_ne_nil h)
  rw [hbt, List.cons_append, List.head?_cons]
  intro hb
  rw [word] at hbt
  split_ifs at hbt with hs
  · rw [List.cons.injEq] at hbt
    rw [← hbt.1] at hb
    exact space_ne_quote (Option.some.inj hb).symm
  · refine hs ?_
    rw [hbt, ← Option.some.inj hb]
    exact List.mem_cons_self

/-- The words behind the first one. -/
def wordsBehind (xs : List ArgData) : List U8 := xs.flatMap fun x => space :: word x

lemma textOf_plain {xs : List ArgData} (text : List U8) (hne : text ≠ [])
    (h : ∀ x ∈ xs, Plain x) : textOf text xs = some (text ++ wordsBehind xs) := by
  induction xs generalizing text with
  | nil => simp [textOf, wordsBehind]
  | cons x xs ih =>
      rw [textOf, argText_of_plain (h x List.mem_cons_self)]
      simp only [Option.bind_eq_bind, Option.bind_some]
      rw [joinText, if_neg hne, ih _ (by simp) fun y hy => h y (List.mem_cons_of_mem _ hy)]
      simp [wordsBehind]

/-! ### Tokens -/

variable {pre post : List U8}

/-- The tokenizer has taken `t`: it is found, it stands in the memory, and what stands
behind `done` can be overwritten without touching it. -/
def Takes (t : List U8) (r : Argument) (pre done : List U8) : Prop :=
  ∃ start, r.start = some start ∧ r.found = true ∧ pre <+: done ∧ done <+: r.mem ∧
    ∀ m, done <+: m → cstring (m.drop start) = t

lemma takes_of_eq {t : List U8} {r : Argument} {lead gap z : List U8} (h0 : 0 ∉ t)
    (hstart : r.start = some (pre ++ lead).length) (hfound : r.found = true)
    (hmem : r.mem = pre ++ (lead ++ t ++ 0 :: gap) ++ z) :
    Takes t r pre (pre ++ (lead ++ t ++ 0 :: gap)) := by
  refine ⟨_, hstart, hfound, List.prefix_append _ _, ⟨z, hmem.symm⟩, ?_⟩
  rintro m ⟨y, rfl⟩
  have hsplit : pre ++ (lead ++ t ++ 0 :: gap) ++ y = (pre ++ lead) ++ (t ++ 0 :: (gap ++ y)) := by
    simp
  rw [hsplit, List.drop_left, cstring_append h0]

/-- In front of a word and a space, the tokenizer takes the word and stops behind the space. -/
lemma next_token (pre post : List U8) {x : ArgData} {after : List U8} (h : Plain x) (h0 : 0 ∉ after)
    (hafter : after.head? ≠ some space) :
    ∃ r done, getNextArgument (pre ++ (word x ++ space :: after ++ 0 :: post)) (some pre.length)
        = some r ∧ Takes (content x) r pre done ∧
      r.mem = done ++ (after ++ 0 :: post) ∧ r.src = some done.length := by
  have h0x := zero_notMem_content x
  rw [word]
  split_ifs with hs
  · have h0' : 0 ∉ content x ++ ([space] ++ after) := by simp [h0x, h0, space]
    have hcall := getNextArgument_quoted pre post h0' (quote_notMem_content h hs)
      (List.mem_append_left _ hs) (by simp) hafter
    have hmem : pre ++ (quote :: (content x ++ [quote]) ++ space :: after ++ 0 :: post)
        = pre ++ (quote :: (content x ++ quote :: ([space] ++ after)) ++ 0 :: post) := by simp
    rw [hmem, hcall]
    refine ⟨_, pre ++ ([quote] ++ content x ++ 0 :: [space]), rfl, ?_, rfl, rfl⟩
    refine takes_of_eq h0x ?_ rfl rfl
    simp
  · have hcall := getNextArgument_plain pre post h0x (content_head h) hs
      (by simp : ∀ x ∈ ([] : List U8), x = space) hafter
    rw [List.nil_append] at hcall
    rw [hcall]
    refine ⟨_, pre ++ ([] ++ content x ++ 0 :: []), rfl, ?_, rfl, rfl⟩
    refine takes_of_eq h0x ?_ rfl rfl
    rw [List.append_nil]

/-- In front of the last word, the tokenizer takes the word. -/
lemma last_token (pre post : List U8) {x : ArgData} (h : Plain x) :
    ∃ r done, getNextArgument (pre ++ (word x ++ 0 :: post)) (some pre.length) = some r ∧
      Takes (content x) r pre done := by
  have h0x := zero_notMem_content x
  rw [word]
  split_ifs with hs
  · have hcall := getNextArgument_quoted pre post (by simpa using h0x) (quote_notMem_content h hs)
      (by simpa using hs) (by simp : ∀ x ∈ ([] : List U8), x = space)
      (by simp : ([] : List U8).head? ≠ some space)
    rw [List.append_nil] at hcall
    rw [hcall]
    refine ⟨_, pre ++ ([quote] ++ content x ++ 0 :: []), rfl, ?_⟩
    refine takes_of_eq h0x ?_ rfl rfl
    simp
  · have hcall := getNextArgument_last pre post h0x (content_ne_nil h) (content_head h) hs
    refine ⟨_, pre ++ ([] ++ content x ++ 0 :: []), hcall, ?_⟩
    refine takes_of_eq (z := post) h0x ?_ rfl ?_
    · rw [List.append_nil]
    · simp

/-! ### Unpacking -/

/-- A text message decoded up to `rest`. -/
structure BeforeText (m : Message) (pre rest post : List U8) : Prop where
  text : m.code < f2CodeStart
  bytes : m.bytes = pre ++ (rest ++ 0 :: post)
  offset : m.offset = pre.length

/-- The decoder for an argument, when the tokenizer takes its word: what it hands back is
the argument, whatever is done to the message behind the word. -/
lemma unshift_takes {m : Message} {x : ArgData} {rest done : List U8} {r : Argument}
    (hx : Plain x) (h : BeforeText m pre rest post) (h0 : 0 ∉ rest) (hne : rest ≠ [])
    (hr : getNextArgument (pre ++ (rest ++ 0 :: post)) (some pre.length) = some r)
    (ht : Takes (content x) r pre done) :
    ∃ v, m.unshift x.target
        = some (some v, { m with bytes := r.mem, offset := m.offsetOf r.src }) ∧
      ∀ m' : Message, done <+: m'.bytes → m'.fetch v = x := by
  obtain ⟨start, hstart, hfound, -, hdone, hread⟩ := ht
  obtain ⟨b, rest', rfl⟩ := List.exists_cons_of_ne_nil hne
  have hb : b ≠ 0 := fun e => h0 (e ▸ List.mem_cons_self)
  have hget : m.bytes[pre.length]? = some b := by
    rw [h.bytes, getElem?_cursor]
    rfl
  rw [← h.bytes] at hr
  cases x with
  | integer n =>
      refine ⟨.integer n, ?_, fun _ _ => rfl⟩
      have hvalue : (strtoul (cstring (r.mem.drop start))).toInt32 = n := by
        rw [hread r.mem hdone]
        exact strtoul_formatLong n
      rw [ArgData.target, unshift, if_pos h.text, unshiftText, h.offset]
      simp only [toNat?_natCast, Option.bind_eq_bind, Option.bind_some, hget, if_neg hb, hr, hstart,
        hfound, if_true, hvalue]
      rfl
  | string s =>
      refine ⟨.string start, ?_, fun m' hm' => ?_⟩
      · rw [ArgData.target, unshift, if_pos h.text, unshiftText, h.offset]
        simp only [toNat?_natCast, Option.bind_eq_bind, Option.bind_some, hget, if_neg hb, hr,
          hstart]
        rfl
      · exact congrArg ArgData.string (Subtype.ext (hread m'.bytes hm'))
  | data bytes => exact absurd hx (by simp [Plain])

lemma zero_notMem_wordsBehind (xs : List ArgData) : 0 ∉ wordsBehind xs := by
  intro h
  obtain ⟨x, -, hx⟩ := List.mem_flatMap.mp h
  rcases List.mem_cons.mp hx with h0 | h0
  · exact space_ne_zero h0.symm
  · exact zero_notMem_word x h0

lemma wordsBehind_cons (x : ArgData) (xs : List ArgData) :
    wordsBehind (x :: xs) = space :: (word x ++ wordsBehind xs) := rfl

/-- **A list of words** is unpacked into the arguments they were made from. -/
lemma unshiftAll_words {m : Message} {x : ArgData} {xs : List ArgData}
    (hargs : ∀ y ∈ x :: xs, Plain y) (h : BeforeText m pre (word x ++ wordsBehind xs) post) :
    ∃ vs m', m.unshiftAll ((x :: xs).map ArgData.target) = some (vs, m') ∧ pre <+: m'.bytes ∧
      vs.map (Option.map m'.fetch) = (x :: xs).map some := by
  have hx : Plain x := hargs x List.mem_cons_self
  induction xs generalizing m x pre with
  | nil =>
      rw [show wordsBehind [] = [] from rfl, List.append_nil] at h
      obtain ⟨r, done, hr, ht⟩ := last_token pre post hx
      obtain ⟨v, hstep, hfetch⟩ := unshift_takes hx h (zero_notMem_word x) (word_ne_nil hx) hr ht
      obtain ⟨start, -, -, hpre, hdone, -⟩ := ht
      refine ⟨[some v], { m with bytes := r.mem, offset := m.offsetOf r.src }, ?_,
        hpre.trans hdone, ?_⟩
      · rw [List.map_singleton, unshiftAll, hstep]
        rfl
      · rw [List.map_singleton, List.map_singleton, Option.map_some, hfetch _ hdone]
  | cons y ys ih =>
      have hy : Plain y := hargs y (by simp)
      have h0 : 0 ∉ word y ++ wordsBehind ys := by
        rw [List.mem_append, not_or]
        exact ⟨zero_notMem_word y, zero_notMem_wordsBehind ys⟩
      obtain ⟨r, done, hr, ht, hmem, hsrc⟩ :=
        next_token pre post hx h0 (word_head _ hy)
      obtain ⟨v, hstep, hfetch⟩ := unshift_takes hx h (by
          rw [wordsBehind_cons, List.mem_append, List.mem_cons, not_or, not_or]
          exact ⟨zero_notMem_word x, space_ne_zero.symm, h0⟩)
        (by simp [word_ne_nil hx]) hr ht
      obtain ⟨start, -, -, hpre, hdone, -⟩ := ht
      have h₁ : BeforeText { m with bytes := r.mem, offset := m.offsetOf r.src } done
          (word y ++ wordsBehind ys) post := ⟨h.text, hmem, by rw [hsrc]; rfl⟩
      obtain ⟨vs, m', hrun, hdone', hvs⟩ :=
        ih (fun z hz => hargs z (List.mem_cons_of_mem _ hz)) h₁ hy
      refine ⟨some v :: vs, m', ?_, hpre.trans hdone', ?_⟩
      · rw [List.map_cons, unshiftAll, hstep]
        simp only [Option.bind_eq_bind, Option.bind_some, hrun]
        rfl
      · rw [List.map_cons, List.map_cons, Option.map_some, hfetch _ hdone', hvs]

/-! ### The round trip -/

/-- The text a list of arguments is packed into. -/
def encodeText (args : List ArgData) : List U8 := (textOf [] args).getD []

lemma textOf_cons_plain {x : ArgData} {xs : List ArgData} (h : ∀ y ∈ x :: xs, Plain y) :
    textOf [] (x :: xs) = some (word x ++ wordsBehind xs) := by
  have hx : Plain x := h x List.mem_cons_self
  rw [textOf, argText_of_plain hx]
  simp only [Option.bind_eq_bind, Option.bind_some]
  rw [joinText, if_pos rfl,
    textOf_plain _ (word_ne_nil hx) fun y hy => h y (List.mem_cons_of_mem _ hy)]

lemma encodeText_cons {x : ArgData} {xs : List ArgData} (h : ∀ y ∈ x :: xs, Plain y) :
    encodeText (x :: xs) = word x ++ wordsBehind xs := by
  rw [encodeText, textOf_cons_plain h, Option.getD_some]

/-- Arguments that are not cut make the round trip. -/
lemma text_roundTrips {f : Fresh} {code : U16} {args : List ArgData} (hcode : code < f2CodeStart)
    (hargs : ∀ x ∈ args, Plain x) (hfit : (encodeText args).length ≤ 65535)
    (hsize : ∀ x ∈ args, argSize x ≤ 65535) : RoundTrips f code args := by
  cases args with
  | nil =>
      obtain ⟨b, header, space, hflush, hheader, -, -⟩ :=
        flush_text f (backed_pushed code []) hcode rfl hsize rfl
      rw [← pack_new] at hflush
      exact ⟨_, _, [], _, hflush, rfl, rfl, rfl⟩
  | cons x xs =>
      have htext := textOf_cons_plain hargs
      rw [encodeText_cons hargs] at hfit
      obtain ⟨b, header, space, hflush, hheader, -, hnul⟩ :=
        flush_text f (backed_pushed code (x :: xs)) hcode rfl hsize htext
      rw [← pack_new] at hflush
      obtain ⟨space, rfl⟩ := List.head?_eq_some_iff.mp (hnul (List.cons_ne_nil x xs))
      have hn : (UInt16.ofNat (word x ++ wordsBehind xs).length).toNat
          = (word x ++ wordsBehind xs).length := by
        rw [UInt16.toNat_ofNat']
        omega
      have hmessage : ((pushed code (x :: xs)).stored b
          (header ++ (word x ++ wordsBehind xs) ++ 0 :: space)
          (word x ++ wordsBehind xs).length).message
          = some ⟨code, b.addr, b.addr_ne, word x ++ wordsBehind xs ++ [0], 0⟩ := by
        rw [message, stored, Option.map_some, hn]
        show some (Message.mk code b.addr b.addr_ne
          (((header ++ (word x ++ wordsBehind xs) ++ 0 :: space).drop 4).take
            ((word x ++ wordsBehind xs).length + 1)) 0) = _
        rw [List.append_assoc header, List.drop_left' hheader, List.take_append,
          List.take_of_length_le (Nat.le_succ _), Nat.add_sub_cancel_left, List.take_succ_cons,
          List.take_zero]
      have hbefore : BeforeText ⟨code, b.addr, b.addr_ne, word x ++ wordsBehind xs ++ [0], 0⟩ []
          (word x ++ wordsBehind xs) [] := ⟨hcode, rfl, rfl⟩
      obtain ⟨vs, m', hrun, -, hvs⟩ := unshiftAll_words hargs hbefore
      exact ⟨_, _, vs, m', hflush, hmessage, hrun, hvs⟩

lemma length_le_word (x : ArgData) : (content x).length ≤ (word x).length := by
  rw [word]
  split_ifs
  · simp
    omega
  · exact le_refl _

lemma word_length_lt_wordsBehind {y : ArgData} {xs : List ArgData} (h : y ∈ xs) :
    (word y).length < (wordsBehind xs).length := by
  induction xs with
  | nil => simp at h
  | cons x xs ih =>
      rw [wordsBehind_cons, List.length_cons, List.length_append]
      rcases List.mem_cons.mp h with rfl | h
      · omega
      · have := ih h
        omega

/-- A string of 65535 bytes leaves no room for another argument. -/
lemma eq_singleton_of_long {args : List ArgData} {s : Text} (hargs : ∀ x ∈ args, Plain x)
    (hfit : (encodeText args).length ≤ 65535) (hs : .string s ∈ args)
    (hlong : 65535 ≤ s.val.length) :
    args = [.string s] ∧ s.val.length = 65535 ∧ space ∉ s.val := by
  obtain ⟨x, xs, rfl⟩ := List.exists_cons_of_ne_nil (List.ne_nil_of_mem hs)
  have hword := length_le_word (.string s)
  rw [encodeText_cons hargs, List.length_append] at hfit
  simp only [content] at hword
  rcases List.mem_cons.mp hs with rfl | hmem
  · have hxs : xs = [] := by
      rw [List.eq_nil_iff_forall_not_mem]
      intro y hy
      have hlt := word_length_lt_wordsBehind hy
      omega
    refine ⟨by rw [hxs], by omega, fun hspace => ?_⟩
    rw [word, if_pos (show space ∈ content (.string s) from hspace)] at hfit
    simp only [List.length_cons, List.length_append, content] at hfit
    omega
  · have hlt := word_length_lt_wordsBehind hmem
    omega

/-- A string of 65535 bytes overflows the block: eight bytes are reserved for it. -/
lemma pack_long (f : Fresh) {code : U16} {s : Text} (hcode : code < f2CodeStart)
    (hlen : s.val.length = 65535) (hs : space ∉ s.val) :
    pack f (new code) [.string s] = none := by
  have hsize : (arg (.string s)).size = 0 := by
    rw [arg, argSize, hlen]
    rfl
  have hres : (pushed code [.string s]).size.toNat
      + ((pushed code [.string s]).writer.map reserve).sum = 8 := by
    show 0 + (reserve (arg (.string s)) + 0) = 8
    rw [reserve, hsize]
    rfl
  have htext : argText (arg (.string s)).data = some s.val := by
    show argText (.string s) = some s.val
    rw [argText, if_neg hs]
  have hput : (⟨(block f [] 8).bytes, 4⟩ : Pen U8).putEnd s.val 0 = none := by
    rw [Pen.putEnd, splice, if_neg, Option.map_none]
    rw [block_length, List.length_append, List.length_singleton]
    omega
  have hround : flushText ⟨(block f [] 8).bytes, 4⟩ (arg (.string s)) = none := by
    rw [flushText, if_neg (lt_irrefl 4)]
    simp only [Option.bind_eq_bind, Option.bind_some, htext, hput]
  rw [pack_new, flush, hres]
  show ((if code < f2CodeStart then _ else _) : Option Command) = none
  rw [if_pos hcode]
  show (List.foldlM flushText ⟨(block f [] 8).bytes, 4⟩ [arg (.string s)]).bind _ = none
  rw [List.foldlM_cons, hround]
  rfl

/-- **The text round trip**: plain arguments whose text fits in a message are unpacked
unchanged exactly when no string among them is as long as the message itself may be. -/
theorem text_roundTrips_iff (f : Fresh) (code : U16) (hcode : code < f2CodeStart)
    (args : List ArgData) (hargs : ∀ x ∈ args, Plain x)
    (hfit : (encodeText args).length ≤ 65535) :
    RoundTrips f code args ↔ ∀ s : Text, .string s ∈ args → s.val.length < 65535 := by
  constructor
  · intro htrip s hs
    by_contra hlong
    obtain ⟨rfl, hlen, hspace⟩ := eq_singleton_of_long hargs hfit hs (by omega)
    obtain ⟨c, m, vs, m', hpack, -⟩ := htrip
    rw [pack_long f hcode hlen hspace] at hpack
    exact absurd hpack (by simp)
  · intro hshort
    refine text_roundTrips hcode hargs hfit fun x hx => ?_
    cases x with
    | integer n => simp [argSize]
    | string s =>
        have := hshort s hx
        simp only [argSize]
        omega
    | data bytes => exact absurd (hargs _ hx) (by simp [Plain])

/-- Three numbers between two strings, one of them with a space. -/
theorem text_roundTrips_test :
    RoundTrips ⟨8, by decide, fun _ => 170⟩ 1 [.string ⟨[97, 115, 100, 102], by decide⟩, .integer 1,
      .integer 2, .integer 3, .string ⟨[102, 111, 111, 32, 98, 97, 114], by decide⟩] :=
  (text_roundTrips_iff _ 1 (by decide) _ (by decide) (by decide)).mpr (by simp)

/-- A string of `n` letters. -/
def letters (n : ℕ) : Text :=
  ⟨List.replicate n 97, fun h => absurd (List.eq_of_mem_replicate h) (by decide)⟩

lemma letters_length (n : ℕ) : (letters n).val.length = n := List.length_replicate

lemma space_notMem_letters (n : ℕ) : space ∉ (letters n).val :=
  fun h => absurd (List.eq_of_mem_replicate h) (by decide)

lemma plain_letters {n : ℕ} (h : 0 < n) : Plain (.string (letters n)) := by
  refine ⟨?_, fun hhead => ?_, fun hs => absurd hs (space_notMem_letters n)⟩
  · rw [← List.length_pos_iff, letters_length]
    exact h
  · exact absurd (List.eq_of_mem_replicate (List.mem_of_mem_head? hhead)) (by decide)

/-- A string of 65535 bytes, which is plain and whose text fits in a message. -/
theorem not_roundTrips_long :
    (Plain (.string (letters 65535)) ∧ (encodeText [.string (letters 65535)]).length ≤ 65535) ∧
    ¬ RoundTrips ⟨8, by decide, fun _ => 170⟩ 1 [.string (letters 65535)] := by
  have hplain : Plain (.string (letters 65535)) := plain_letters (by omega)
  refine ⟨⟨hplain, ?_⟩, ?_⟩
  · rw [encodeText_cons (fun y hy => List.mem_singleton.mp hy ▸ hplain), word, content,
      if_neg (space_notMem_letters _), show wordsBehind [] = [] from rfl, List.append_nil,
      letters_length]
  · rintro ⟨c, m, vs, m', hpack, -⟩
    rw [pack_long _ (by decide) (letters_length _) (space_notMem_letters _)] at hpack
    exact absurd hpack (by simp)

end Command

end Napd
