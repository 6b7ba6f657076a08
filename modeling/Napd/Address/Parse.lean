import Napd.Address
import Napd.Tokenizer

/-!
An address from its text, `Address::Address(const char *, U16)` of `address.cc`.

* `Resolver`: what `inet_addr` and `gethostbyname` make of a host name.
* `splitHost`, `resolve`, `ofHost`: the constructor. The name in front of a colon is copied to a
  buffer on the stack, whose contents are arbitrary; a write outside of it is a fault.
* `splitHost_iff`: **the constructor writes outside of the buffer if and only if the colon is the
  257th character or a later one, and it looks the right name up in all cases if and only if the
  colon is among the first 247.**
* `printed_roundTrips`: **the address is read back from what `operator char *` gives, whatever was
  printed before.**
-/

namespace Napd

namespace Address

/-- `in_addr_t`: the bytes of an address in network order. -/
structure InAddr where
  a : U8
  b : U8
  c : U8
  d : U8
  deriving DecidableEq

/-- `ntohl`. -/
def InAddr.ntoh (x : InAddr) : U32 := ntoh32 x.a x.b x.c x.d

/-- `htonl`. -/
def InAddr.hton (ip : U32) : InAddr :=
  ⟨UInt8.ofNat (ip.toNat / 16777216), UInt8.ofNat (ip.toNat / 65536),
    UInt8.ofNat (ip.toNat / 256), UInt8.ofNat ip.toNat⟩

/-- `INADDR_NONE`. -/
def INADDR_NONE : InAddr := ⟨255, 255, 255, 255⟩

/-- The resolver of the C library: the address in a text, and that of a host. -/
structure Resolver where
  inet_addr : List U8 → InAddr
  gethostbyname : List U8 → Option InAddr

/-- `':'`. -/
def colon : U8 := 58

/-- The host name and the port, where `buf` is what the stack holds. -/
def splitHost (buf : List U8) (host : Text) (_port : U16) : Option (List U8 × U16) :=
  if _port ≠ 0 then some (host.val, _port)
  else
    (Tokenizer.strchr (host.val ++ [0]) 0 colon).bind fun p =>
      match p with
      | none => some (host.val, 0)
      | some p =>
          ([strncpy 0 host.val 246, ⟨255, [0]⟩, ⟨p, [0]⟩].foldlM Write.apply buf).map fun m =>
            (cstring m, (atoi (host.val.drop (p + 1))).toUInt32.toUInt16)

/-- The address of a host; `none` if it throws. -/
def resolve (r : Resolver) (host : List U8) : Option U32 :=
  if host = [] then some 0
  else if r.inet_addr host = INADDR_NONE then (r.gethostbyname host).map InAddr.ntoh
  else some (r.inet_addr host).ntoh

/-- `Address::Address(const char *, U16)`; the inner `none` if it throws. -/
def ofHost (r : Resolver) (buf : List U8) (host : Text) (_port : U16) : Option (Option Address) :=
  (splitHost buf host _port).map fun x => (resolve r x.1).map fun ip => ⟨ip, x.2⟩

/-! ### The name in front of the colon -/

/-- What stands in front of the first colon. -/
def name (host : Text) : List U8 := host.val.takeWhile (· ≠ colon)

lemma colon_notMem_name (host : Text) : colon ∉ name host := by
  intro h
  simpa using List.mem_takeWhile_imp h

lemma zero_notMem_name (host : Text) : 0 ∉ name host := fun h =>
  host.property (List.takeWhile_subset _ h)

lemma exists_port (host : Text) (h : colon ∈ host.val) :
    ∃ rest, host.val = name host ++ colon :: rest := by
  obtain ⟨a, b, hab, ha⟩ := List.eq_append_cons_of_mem h
  refine ⟨b, ?_⟩
  have hne : ∀ x ∈ a, decide (x ≠ colon) = true :=
    fun x hx => decide_eq_true (ne_of_mem_of_not_mem hx ha)
  have hname : name host = a := by
    rw [name, hab, List.takeWhile_append_of_pos hne, List.takeWhile_cons_of_neg (by simp),
      List.append_nil]
  rw [hname, hab]

/-- Without a colon, the text is the name. -/
lemma splitHost_name (buf : List U8) (host : Text) (h : colon ∉ host.val) :
    splitHost buf host 0 = some (host.val, 0) := by
  have hfind := Tokenizer.strchr_append_zero [] (m := []) (c := colon) (by decide) h host.property
  rw [List.nil_append, List.length_nil] at hfind
  rw [splitHost, if_neg (by simp), hfind]
  rfl

/-- With a colon, the name is copied. -/
lemma splitHost_colon (buf : List U8) {host : Text} {rest : List U8}
    (h : host.val = name host ++ colon :: rest) :
    splitHost buf host 0
      = ([strncpy 0 host.val 246, ⟨255, [0]⟩, ⟨(name host).length, [0]⟩].foldlM
          Write.apply buf).map fun m => (cstring m, (atoi rest).toUInt32.toUInt16) := by
  have hfind := Tokenizer.strchr_append [] (m := rest ++ [0]) (colon_notMem_name host)
    (zero_notMem_name host)
  have hdrop : host.val.drop ((name host).length + 1) = rest := by
    conv_lhs => rw [h]
    rw [← List.drop_drop, List.drop_left, List.drop_one, List.tail_cons]
  have htext : name host ++ colon :: (rest ++ [0]) = host.val ++ [0] := by
    conv_rhs => rw [h]
    rw [List.append_assoc, List.cons_append]
  rw [List.nil_append, List.length_nil, Nat.zero_add, htext] at hfind
  rw [splitHost, if_neg (by simp), hfind, Option.bind_some]
  simp only [hdrop]

lemma cstring_stop (l m : List U8) : cstring (l ++ 0 :: m) = cstring l := by
  induction l with
  | nil => rfl
  | cons b l ih =>
      simp only [cstring, List.cons_append, List.takeWhile_cons] at ih ⊢
      rw [ih]

/-- What is copied of the text: its first 246 characters, with zeros up to that. -/
def copied (host : Text) : List U8 := (strncpy 0 host.val 246).bytes

lemma copied_length (host : Text) : (copied host).length = 246 := by
  simp only [copied, strncpy, List.length_append, List.length_take, List.length_replicate]
  omega

/-- The buffer behind the first two writes: nine bytes are what the stack held. -/
lemma writes_eq {buf : List U8} (hbuf : buf.length = 256) (host : Text) (p : ℕ) :
    [strncpy 0 host.val 246, ⟨255, [0]⟩, ⟨p, [0]⟩].foldlM Write.apply buf
      = Memory.splice (copied host ++ ((buf.drop 246).take 9 ++ [0])) p [0] := by
  have hfirst : Write.apply buf (strncpy 0 host.val 246)
      = some (copied host ++ buf.drop 246) := by
    have h := Memory.splice_append [] buf (copied host) (by rw [copied_length, hbuf]; decide)
    rw [copied_length] at h
    exact h
  have hsplit : copied host ++ buf.drop 246
      = (copied host ++ (buf.drop 246).take 9) ++ buf.drop 255 := by
    rw [List.append_assoc, ← List.drop_drop (i := 9) (j := 246), List.take_append_drop]
  have hlen : (copied host ++ (buf.drop 246).take 9).length = 255 := by
    rw [List.length_append, copied_length, List.length_take, List.length_drop, hbuf]
    rfl
  have hlast : (buf.drop 255).length = 1 := by rw [List.length_drop, hbuf]
  have hsecond : Write.apply (copied host ++ buf.drop 246) ⟨255, [0]⟩
      = some (copied host ++ ((buf.drop 246).take 9 ++ [0])) := by
    have h := Memory.splice_append (copied host ++ (buf.drop 246).take 9) (buf.drop 255) [0]
      hlast.ge
    rw [hlen, ← hsplit] at h
    have hnil : (buf.drop 255).drop [(0 : U8)].length = [] := List.drop_eq_nil_of_le hlast.le
    rw [Write.apply, h, hnil, List.append_nil, List.append_assoc]
  rw [List.foldlM_cons, hfirst]
  show (Write.apply _ _).bind _ = _
  rw [hsecond, Option.bind_some, List.foldlM_cons]
  show (Write.apply _ _).bind _ = _
  exact Option.bind_fun_some _

/-- With zeros on the stack, a longer name is cut. -/
lemma take_copied_zeros {host : Text} (hp : 246 < (name host).length) :
    (cstring ((copied host ++ (((List.replicate 256 0).drop 246).take 9 ++ [0])).take
      (name host).length)).length ≤ 246 := by
  have hzero : ((List.replicate 256 (0 : U8)).drop 246).take 9 ++ [0] = List.replicate 10 0 := rfl
  rw [hzero, List.take_append, List.take_of_length_le (by rw [copied_length]; exact hp.le),
    List.take_replicate]
  obtain ⟨n, hn⟩ : ∃ n, min ((name host).length - (copied host).length) 10 = n + 1 := by
    refine Nat.exists_eq_add_one_of_ne_zero ?_
    rw [copied_length]
    omega
  rw [hn, List.replicate_succ, cstring_stop]
  exact (List.takeWhile_prefix _).length_le.trans (copied_length host).le

section Colon

variable {buf : List U8} {host : Text} {rest : List U8}
  (h : host.val = name host ++ colon :: rest)
include h

/-- A write that ends the name outside of the buffer. -/
lemma splitHost_outside (hbuf : buf.length = 256) (hp : 256 ≤ (name host).length) :
    splitHost buf host 0 = none := by
  rw [splitHost_colon buf h, writes_eq hbuf, Memory.splice, if_neg, Option.map_none]
  simp only [List.length_append, copied_length, List.length_take, List.length_drop, hbuf,
    List.length_singleton]
  omega

/-- A write that ends the name inside of it. -/
lemma splitHost_inside (hbuf : buf.length = 256) (hp : (name host).length ≤ 255) :
    splitHost buf host 0
      = some (cstring ((copied host ++ ((buf.drop 246).take 9 ++ [0])).take (name host).length),
          (atoi rest).toUInt32.toUInt16) := by
  have hfit : (name host).length + [(0 : U8)].length
      ≤ (copied host ++ ((buf.drop 246).take 9 ++ [0])).length := by
    simp only [List.length_append, copied_length, List.length_take, List.length_drop, hbuf,
      List.length_singleton]
    omega
  rw [splitHost_colon buf h, writes_eq hbuf, Memory.splice, if_pos hfit, Option.map_some,
    List.append_assoc, List.singleton_append, cstring_stop]

/-- The name is whole if it was copied whole. -/
lemma take_copied (hp : (name host).length ≤ 246) (l : List U8) :
    (copied host ++ l).take (name host).length = name host := by
  have hhost : (name host).length ≤ host.val.length := by
    conv_rhs => rw [h]
    rw [List.length_append]
    exact Nat.le_add_right _ _
  have hcut : (name host).length ≤ (host.val.take 246).length := by
    rw [List.length_take]
    exact le_min hp hhost
  rw [List.take_append_of_le_length (by rw [copied_length]; exact hp), copied, strncpy,
    List.take_append_of_le_length hcut, List.take_take, min_eq_left hp]
  conv_lhs => rw [h]
  exact List.take_left

end Colon

/-! ### When it is right -/

/-- What the constructor is to look up, and the port. -/
def parsed (host : Text) (_port : U16) : List U8 × U16 :=
  if _port ≠ 0 then (host.val, _port)
  else if colon ∈ host.val then
    (name host, (atoi (host.val.drop ((name host).length + 1))).toUInt32.toUInt16)
  else (host.val, 0)

lemma parsed_colon {host : Text} {rest : List U8} (h : host.val = name host ++ colon :: rest) :
    parsed host 0 = (name host, (atoi rest).toUInt32.toUInt16) := by
  have hmem : colon ∈ host.val := by
    rw [h]
    exact List.mem_append_right _ List.mem_cons_self
  have hdrop : host.val.drop ((name host).length + 1) = rest := by
    conv_lhs => rw [h]
    rw [← List.drop_drop, List.drop_left, List.drop_one, List.tail_cons]
  rw [parsed, if_neg (by simp), if_pos hmem, hdrop]

/-- **A long host name.** Whatever the stack holds, the constructor writes inside of its buffer if
and only if a port is given, or there is no colon, or at most 255 characters in front of it; and
it looks up the name in front of the colon, with the port behind it, if and only if these are at
most 246. -/
theorem splitHost_iff (host : Text) (_port : U16) :
    ((∀ buf, buf.length = 256 → splitHost buf host _port ≠ none) ↔
      _port ≠ 0 ∨ colon ∉ host.val ∨ (name host).length ≤ 255) ∧
    ((∀ buf, buf.length = 256 → splitHost buf host _port = some (parsed host _port)) ↔
      _port ≠ 0 ∨ colon ∉ host.val ∨ (name host).length ≤ 246) := by
  by_cases hport : _port = 0
  swap
  · have hsplit : ∀ buf, splitHost buf host _port = some (parsed host _port) := by
      intro buf
      rw [splitHost, if_pos hport, parsed, if_pos hport]
    exact ⟨⟨fun _ => .inl hport, fun _ buf _ => by rw [hsplit]; exact Option.some_ne_none _⟩,
      ⟨fun _ => .inl hport, fun _ buf _ => hsplit buf⟩⟩
  subst hport
  by_cases hcolon : colon ∈ host.val
  swap
  · have hsplit : ∀ buf, splitHost buf host 0 = some (parsed host 0) := by
      intro buf
      rw [splitHost_name buf host hcolon, parsed, if_neg (by simp), if_neg hcolon]
    exact ⟨⟨fun _ => .inr (.inl hcolon), fun _ buf _ => by
        rw [hsplit]; exact Option.some_ne_none _⟩,
      ⟨fun _ => .inr (.inl hcolon), fun _ buf _ => hsplit buf⟩⟩
  obtain ⟨rest, h⟩ := exists_port host hcolon
  have hor : ∀ n, ((0 : U16) ≠ 0 ∨ colon ∉ host.val ∨ (name host).length ≤ n)
      ↔ (name host).length ≤ n := by
    intro n
    rw [or_iff_right (by simp), or_iff_right (not_not.mpr hcolon)]
  rw [hor, hor]
  have hzeros : (List.replicate 256 (0 : U8)).length = 256 := List.length_replicate
  constructor
  · constructor
    · intro hinside
      by_contra hlong
      exact hinside _ hzeros (splitHost_outside h hzeros (by omega))
    · intro hp buf hbuf
      rw [splitHost_inside h hbuf hp]
      exact Option.some_ne_none _
  · constructor
    · intro hright
      by_contra hlong
      have hzero := hright _ hzeros
      rw [parsed_colon h] at hzero
      rcases Nat.lt_or_ge 255 (name host).length with hout | hin
      · rw [splitHost_outside h hzeros (by omega)] at hzero
        cases hzero
      · rw [splitHost_inside h hzeros hin] at hzero
        have hcut := take_copied_zeros (by omega : 246 < (name host).length)
        obtain ⟨hname, -⟩ := Prod.mk.inj (Option.some.inj hzero)
        rw [hname] at hcut
        exact hlong hcut
    · intro hp buf hbuf
      rw [splitHost_inside h hbuf (by omega), take_copied h hp, parsed_colon h,
        ← cstring_append_zero, cstring_append (zero_notMem_name host)]

/-! ### The round trip -/

/-- What the C library promises: an address in dotted notation is short, has no colon, and is read
back. -/
structure Standard (inet_ntoa : List U8 → Text) (r : Resolver) : Prop where
  dotted : Dotted inet_ntoa
  nonempty : ∀ ip : U32, (inet_ntoa (hton32 ip)).val ≠ []
  plain : ∀ ip : U32, colon ∉ (inet_ntoa (hton32 ip)).val
  inverse : ∀ ip : U32, r.inet_addr (inet_ntoa (hton32 ip)).val = InAddr.hton ip

lemma ntoh_hton (ip : U32) : (InAddr.hton ip).ntoh = ip := ntoh32_hton32 ip

lemma hton_eq_none_iff (ip : U32) : InAddr.hton ip = INADDR_NONE ↔ ip = 4294967295 := by
  constructor
  · intro h
    rw [← ntoh_hton ip, h]
    rfl
  · rintro rfl
    rfl

lemma atoi_decimal {n : ℕ} (h : n ≤ 2147483647) : atoi (decimal n) = Int32.ofNat n := by
  obtain ⟨b, s, hbs, hspace, h45, h43⟩ := decimal_eq_cons n
  have hdrop : (decimal n).dropWhile isspace = decimal n := by
    rw [hbs, List.dropWhile_cons_of_neg (by simp [hspace])]
  have hsign : sign (decimal n) = (false, decimal n) := by
    rw [hbs, sign, if_neg h45, if_neg h43]
  simp only [atoi, strtol, hdrop, hsign, takeWhile_decimal, digitsValue_decimal, if_pos h]
  rfl

/-- The port is read back. -/
lemma atoi_port (port : U16) : (atoi (decimal port.toNat)).toUInt32.toUInt16 = port := by
  have hlt := port.toNat_lt
  rw [atoi_decimal (by omega), ← UInt16.toNat_inj]
  simp

/-- What the constructor makes of an address and a port in text. -/
lemma parsed_text {host : Text} {t : List U8} {port : U16} (hplain : colon ∉ t)
    (h : host.val = t ++ portText port) : name host = t ∧ parsed host 0 = (t, port) := by
  have hne : ∀ x ∈ t, decide (x ≠ colon) = true :=
    fun x hx => decide_eq_true (ne_of_mem_of_not_mem hx hplain)
  have hname : name host = t := by
    rw [name, h, List.takeWhile_append_of_pos hne, portText,
      List.takeWhile_cons_of_neg (by simp [colon]), List.append_nil]
  refine ⟨hname, ?_⟩
  have hsplit : host.val = name host ++ colon :: decimal port.toNat := by
    rw [hname, h]
    rfl
  rw [parsed_colon hsplit, hname, atoi_port]

/-- **The text of an address is read back**, after any calls that printed addresses, and whatever
the stack holds. Only `255.255.255.255` is taken for a name: it is what the resolver says. -/
theorem printed_roundTrips (inet_ntoa : List U8 → Text) (r : Resolver) (hstd : Standard inet_ntoa r)
    (calls : List Call) (a : Address) (buf : List U8) (hbuf : buf.length = 256) :
    ∃ s t, Runs.run (step inet_ntoa) new calls = some s ∧
      char_ptr inet_ntoa s.buffer a = some t ∧
      ofHost r buf ⟨cstring (t.buffer.bytes.drop t.ret), zero_notMem_cstring _⟩ 0
        = some (if a.ip = 4294967295 then
            (r.gethostbyname (inet_ntoa (hton32 a.ip)).val).map fun x => ⟨x.ntoh, a.port⟩
          else some a) := by
  obtain ⟨s, hrun, hinv, -⟩ := run_inv hstd.dotted (inv_new inet_ntoa) calls
  have hlen := hinv.length
  have hnext := hinv.next
  obtain ⟨t, ht, htook⟩ := char_ptr_spec inet_ntoa (hstd.dotted a.ip) (by omega) hlen
  refine ⟨s, t, hrun, ht, ?_⟩
  obtain ⟨rest, hrest⟩ := htook.holds.eq_append
  have htext : cstring (t.buffer.bytes.drop t.ret)
      = (inet_ntoa (hton32 a.ip)).val ++ portText a.port := by
    have hzero : 0 ∉ (inet_ntoa (hton32 a.ip)).val ++ portText a.port := by
      rw [List.mem_append, portText, List.mem_cons, not_or, not_or]
      exact ⟨(inet_ntoa (hton32 a.ip)).property, by decide, zero_notMem_decimal _⟩
    rw [htook.ret, hrest]
    exact cstring_append hzero rest
  obtain ⟨hname, hparsed⟩ := @parsed_text
    ⟨cstring (t.buffer.bytes.drop t.ret), zero_notMem_cstring _⟩ _ _ (hstd.plain a.ip) htext
  have hshort : (name ⟨cstring (t.buffer.bytes.drop t.ret), zero_notMem_cstring _⟩).length
      ≤ 246 := by
    rw [hname]
    exact (hstd.dotted a.ip).trans (by decide)
  have hsplit := (splitHost_iff _ 0).2.mpr (.inr (.inr hshort)) buf hbuf
  rw [ofHost, hsplit, Option.map_some, hparsed, resolve, if_neg (hstd.nonempty a.ip), hstd.inverse]
  by_cases hip : a.ip = 4294967295
  · rw [if_pos ((hton_eq_none_iff _).mpr hip), if_pos hip, Option.map_map]
    rfl
  · rw [if_neg (mt (hton_eq_none_iff _).mp hip), if_neg hip, ntoh_hton]
    rfl

/-- A number, and what stands behind the dot that follows it. -/
def part (s : List U8) : U8 × List U8 :=
  (UInt8.ofNat (digitsValue (s.takeWhile isdigit)), (s.dropWhile isdigit).drop 1)

/-- `inet_addr`, for dotted notation as `inet_ntoa` gives it. -/
def inetAddr (s : List U8) : InAddr :=
  let x := part s
  let y := part x.2
  let z := part y.2
  let w := part z.2
  if dottedQuad x.1 y.1 z.1 w.1 = s then ⟨x.1, y.1, z.1, w.1⟩ else INADDR_NONE

lemma part_last (b : U8) : part (decimal b.toNat) = (b, []) := by
  have hdrop : (decimal b.toNat).dropWhile isdigit = [] :=
    List.dropWhile_eq_nil_iff.mpr fun _ hx => isdigit_of_mem_decimal hx
  rw [part, takeWhile_decimal, digitsValue_decimal, hdrop, UInt8.ofNat_toNat]
  rfl

lemma part_dot (b : U8) (s : List U8) : part (decimal b.toNat ++ 46 :: s) = (b, s) := by
  have hdigit : ∀ x ∈ decimal b.toNat, isdigit x = true := fun _ hx => isdigit_of_mem_decimal hx
  rw [part, List.takeWhile_append_of_pos hdigit, List.dropWhile_append_of_pos hdigit,
    List.takeWhile_cons_of_neg (by decide), List.dropWhile_cons_of_neg (by decide),
    List.append_nil, digitsValue_decimal, UInt8.ofNat_toNat]
  rfl

lemma inetAddr_dottedQuad (a b c d : U8) : inetAddr (dottedQuad a b c d) = ⟨a, b, c, d⟩ := by
  have hparts : dottedQuad a b c d
      = decimal a.toNat ++ 46 :: (decimal b.toNat ++ 46 :: (decimal c.toNat
        ++ 46 :: decimal d.toNat)) := rfl
  rw [inetAddr]
  conv_lhs => rw [hparts]
  simp only [part_dot, part_last]
  exact if_pos hparts

/-- A resolver that knows no names. -/
def nameless : Resolver := ⟨inetAddr, fun _ => none⟩

lemma standard_dotted : Standard dotted nameless where
  dotted := fun _ => dottedQuad_length_le _ _ _ _
  nonempty := fun ip hnil => by
    have hlen : (dotted (hton32 ip)).val.length = 0 := by rw [hnil, List.length_nil]
    simp [dotted, hton32, dottedQuad] at hlen
  plain := fun ip => by
    have hdigit : ∀ n : ℕ, 58 ∉ decimal n := fun n hmem =>
      absurd (isdigit_of_mem_decimal hmem) (by decide)
    simp [dotted, hton32, dottedQuad, hdigit, colon]
  inverse := fun _ => inetAddr_dottedQuad _ _ _ _

/-- `127.0.0.1:99`, behind another call. -/
theorem printed_roundTrips_localhost :
    ∃ s t, Runs.run (step dotted) new [.ip_str ⟨167772161, 80⟩] = some s ∧
      char_ptr dotted s.buffer ⟨2130706433, 99⟩ = some t ∧
      ofHost nameless (List.replicate 256 170)
        ⟨cstring (t.buffer.bytes.drop t.ret), zero_notMem_cstring _⟩ 0
        = some (some ⟨2130706433, 99⟩) := by
  have h := printed_roundTrips dotted nameless standard_dotted [.ip_str ⟨167772161, 80⟩]
    ⟨2130706433, 99⟩ (List.replicate 256 170) List.length_replicate
  rwa [if_neg (by decide)] at h

end Address

end Napd
