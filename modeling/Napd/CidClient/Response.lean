import Napd.CidClient.Model

/-!
When a content-id response that is accepted lies inside its datagram.

* `load16_swapBytes`: a field that is converted in place.
* `takeApart_of_short`, `takeApart_eq`: a buffer without room for the headers, and with it: the
  datagram's length is compared before anything is handed out.
* `Inside`: what is handed out lies in `in_buf[0..len]`; `Contained`: the offsets of the
  datagram keep it there.
* `responseReceive_inside_iff`: the two agree, for every datagram whose length is the one that
  its header says; the offsets are not checked.
-/

namespace Napd.CidClient

/-! ### Fields that are converted in place -/

/-- `ntohs` of the `U16` at a position. -/
def netLoad16 (m : List U8) (i : ℕ) : U16 := ntoh16 (byteAt m i) (byteAt m (i + 1))

lemma load16_swapBytes {i : ℕ} {m : List U8} (hfit : i + 2 ≤ m.length) :
    load16 (swapBytes i 2 m) i = netLoad16 m i := by
  have hhigh : 2 * i + 2 - 1 - (i + 1) = i := by omega
  have hlow : 2 * i + 2 - 1 - i = i + 1 := by omega
  rw [load16, netLoad16, byteAt_swapBytes hfit (by omega) (by omega),
    byteAt_swapBytes hfit (by omega) (by omega), hhigh, hlow]

lemma load16_swapBytes_of_outside {i j : ℕ} {m : List U8} (h : j + 2 ≤ i ∨ i + 2 ≤ j) :
    load16 (swapBytes i 2 m) j = load16 m j := by
  rw [load16, load16, byteAt_swapBytes_of_outside (by omega),
    byteAt_swapBytes_of_outside (by omega)]

lemma byteAt_fileCert_ntoh {fc k : ℕ} {m : List U8} (h : k < fc ∨ fc + 68 ≤ k) :
    byteAt (FileCert.ntoh fc m) k = byteAt m k := by
  rw [FileCert.ntoh]
  iterate 6 rw [byteAt_swapBytes_of_outside (by omega)]

lemma fileCert_ntoh_length (fc : ℕ) (m : List U8) : (FileCert.ntoh fc m).length = m.length := by
  simp only [FileCert.ntoh, swapBytes_length]

lemma byteAt_songCertHead_ntoh {sc k : ℕ} {m : List U8} (h : k < sc ∨ sc + 24 ≤ k) :
    byteAt (SongCertHead.ntoh sc m) k = byteAt m k := by
  rw [SongCertHead.ntoh]
  iterate 4 rw [byteAt_swapBytes_of_outside (by omega)]

/-- The song id, the last field of the head, is turned around. -/
lemma byteAt_songCertHead_ntoh_songid {sc k : ℕ} {m : List U8} (hfit : sc + 24 ≤ m.length)
    (hsc : sc + 16 ≤ k) (hk : k < sc + 24) :
    byteAt (SongCertHead.ntoh sc m) k = byteAt m (2 * sc + 39 - k) := by
  rw [SongCertHead.ntoh, byteAt_swapBytes (by simp only [swapBytes_length]; omega) (by omega)
    (by omega)]
  iterate 3 rw [byteAt_swapBytes_of_outside (by omega)]
  congr 1

lemma songCertHead_ntoh_length (sc : ℕ) (m : List U8) :
    (SongCertHead.ntoh sc m).length = m.length := by
  simp only [SongCertHead.ntoh, swapBytes_length]

/-! ### What `ResponseReceive` does -/

section TakeApart

variable (net_to_host md5txtbuf : Bool) {len : ℕ} {m : List U8}

/-- The buffer with both headers in host order. -/
def headersToHost (m : List U8) : List U8 := ContentPktBodyHeader.NtoH (ContentPktHeader.NtoH m)

lemma headersToHost_length (m : List U8) : (headersToHost m).length = m.length := by
  simp only [headersToHost, ContentPktBodyHeader.NtoH, ContentPktHeader.NtoH, swapBytes_length]

lemma byteAt_headersToHost {k : ℕ} (h : 16 ≤ k) : byteAt (headersToHost m) k = byteAt m k := by
  rw [headersToHost, ContentPktBodyHeader.NtoH, ContentPktHeader.NtoH]
  iterate 4 rw [byteAt_swapBytes_of_outside (by omega)]

lemma body_len_headersToHost (hm : 16 ≤ m.length) :
    ContentPktHeader.body_len (headersToHost m) = netLoad16 m 6 := by
  rw [ContentPktHeader.body_len, headersToHost, ContentPktBodyHeader.NtoH, ContentPktHeader.NtoH,
    load16_swapBytes_of_outside (by omega), load16_swapBytes_of_outside (by omega),
    load16_swapBytes (by rw [swapBytes_length]; omega), netLoad16,
    byteAt_swapBytes_of_outside (by omega), byteAt_swapBytes_of_outside (by omega), netLoad16]

lemma username_offset_headersToHost (hm : 16 ≤ m.length) :
    ContentPktBodyHeader.username_offset (headersToHost m) = netLoad16 m 12 := by
  rw [ContentPktBodyHeader.username_offset, headersToHost, ContentPktBodyHeader.NtoH,
    ContentPktHeader.NtoH, load16_swapBytes_of_outside (by omega),
    load16_swapBytes (by simp only [swapBytes_length]; omega), netLoad16, netLoad16]
  iterate 4 rw [byteAt_swapBytes_of_outside (by omega)]

lemma certs_offset_headersToHost (hm : 16 ≤ m.length) :
    ContentPktBodyHeader.certs_offset (headersToHost m) = netLoad16 m 14 := by
  rw [ContentPktBodyHeader.certs_offset, headersToHost, ContentPktBodyHeader.NtoH,
    ContentPktHeader.NtoH, load16_swapBytes (by simp only [swapBytes_length]; omega), netLoad16,
    netLoad16]
  iterate 6 rw [byteAt_swapBytes_of_outside (by omega)]

/-- The length that is compared, as an unsigned number, is never less than it should be. -/
lemma length_check {n : ℕ} (hn : n < 2147483648) (b : U16) :
    UInt32.ofNat n - 8 = b.toUInt32 ↔ n = 8 + b.toNat := by
  have hb : b.toNat < 2 ^ 16 := b.toNat_lt
  rw [← UInt32.toNat_inj, UInt32.toNat_sub, UInt32.toNat_ofNat', UInt16.toNat_toUInt32]
  have h8 : UInt32.toNat 8 = 8 := rfl
  rw [h8]
  constructor
  · intro h
    omega
  · intro h
    omega

/-- A buffer in which the headers do not fit. -/
lemma takeApart_of_short (hm : m.length < 16) :
    takeApart net_to_host md5txtbuf len m = .error .fault := by
  have hset : (m.set len 0).length = m.length := List.length_set
  rw [takeApart]
  simp only [within, hset]
  by_cases h8 : 8 ≤ m.length
  · have hNtoH : (ContentPktHeader.NtoH (m.set len 0)).length = m.length := by
      simp only [ContentPktHeader.NtoH, swapBytes_length, hset]
    simp only [if_pos h8, bind, Except.bind, hNtoH, if_neg (Nat.not_le.mpr hm)]
  · simp only [if_neg h8, bind, Except.bind]

/-- The headers are converted, and the length is compared. -/
lemma takeApart_eq (hm : 16 ≤ m.length) :
    takeApart net_to_host md5txtbuf len m
      = if UInt32.ofNat len - 8 ≠ (netLoad16 (m.set len 0) 6).toUInt32 then
          .ok ⟨-1, headersToHost (m.set len 0), none⟩
        else handOut net_to_host md5txtbuf len (headersToHost (m.set len 0)) := by
  have hset : (m.set len 0).length = m.length := List.length_set
  have h8 : 8 ≤ m.length := by omega
  have hNtoH : (ContentPktHeader.NtoH (m.set len 0)).length = m.length := by
    simp only [ContentPktHeader.NtoH, swapBytes_length, hset]
  rw [← body_len_headersToHost (by omega), takeApart]
  simp only [within, hset, hNtoH, if_pos h8, if_pos hm, bind, Except.bind]
  rfl

end TakeApart

/-! ### The certificates in host order -/

section Converted

variable {net_to_host : Bool} {fc k : ℕ} {m n : List U8}

/-- The buffer with both certificates in host order, if they have to be. -/
def converted (net_to_host : Bool) (fc : ℕ) (m : List U8) : List U8 :=
  if net_to_host then SongCertHead.ntoh (fc + 68) (FileCert.ntoh fc m) else m

lemma converted_length : (converted net_to_host fc m).length = m.length := by
  cases net_to_host with
  | false => rfl
  | true => exact (songCertHead_ntoh_length _ _).trans (fileCert_ntoh_length _ _)

lemma convert_of_le (h : fc + 68 + 24 ≤ m.length) :
    convert net_to_host fc m = .ok (converted net_to_host fc m) := by
  cases net_to_host with
  | false => rfl
  | true =>
      have hfile : fc + 32 ≤ m.length := by omega
      simp only [convert, converted, within, if_true, if_pos hfile, bind, Except.bind,
        fileCert_ntoh_length, if_pos h]

lemma eq_of_convert (h : convert net_to_host fc m = .ok n) : n = converted net_to_host fc m := by
  cases net_to_host with
  | false => exact (Except.ok.inj h).symm
  | true =>
      simp only [convert, converted, within, if_true] at h ⊢
      split_ifs at h with hfile
      · simp only [bind, Except.bind] at h
        split_ifs at h with hsong
        exact (Except.ok.inj h).symm
      · cases h

lemma byteAt_converted (h : k < fc ∨ fc + 68 + 24 ≤ k) :
    byteAt (converted net_to_host fc m) k = byteAt m k := by
  cases net_to_host with
  | false => rfl
  | true =>
      exact (byteAt_songCertHead_ntoh (by omega)).trans (byteAt_fileCert_ntoh (by omega))

lemma byteAt_converted_songid (hfit : fc + 68 + 24 ≤ m.length) (hfc : fc + 84 ≤ k)
    (hk : k < fc + 92) : byteAt (converted true fc m) k = byteAt m (2 * fc + 175 - k) := by
  have hlen : fc + 68 + 24 ≤ (FileCert.ntoh fc m).length := by
    rw [fileCert_ntoh_length]
    exact hfit
  show byteAt (SongCertHead.ntoh (fc + 68) (FileCert.ntoh fc m)) k = _
  rw [byteAt_songCertHead_ntoh_songid hlen (by omega) (by omega),
    byteAt_fileCert_ntoh (by omega)]
  congr 1

lemma certs_offset_converted (hfc : 16 ≤ fc) :
    ContentPktBodyHeader.certs_offset (converted net_to_host fc m)
      = ContentPktBodyHeader.certs_offset m := by
  rw [ContentPktBodyHeader.certs_offset, ContentPktBodyHeader.certs_offset, load16, load16,
    byteAt_converted (by omega), byteAt_converted (by omega)]

lemma md5Text_of_le (md5txtbuf : Bool) (fc : ℕ) (m : List U8) (h : fc + 32 + 16 ≤ m.length) :
    ∃ t, md5Text md5txtbuf fc m = .ok t := by
  cases md5txtbuf with
  | false => exact ⟨none, rfl⟩
  | true =>
      have hmd5 : ((m.drop (fc + 32)).take 16).length = 16 := by
        rw [List.length_take, List.length_drop]
        omega
      refine ⟨some (bin_to_hex ((m.drop (fc + 32)).take 16)), ?_⟩
      rw [md5Text, if_pos rfl, readBytes, dif_pos hmd5]
      rfl

end Converted

/-! ### What is handed out lies in the datagram -/

/-- The call returns a value that is not positive, or the headers, the name with its NUL and
both certificates lie in `in_buf[0..len]`, and `scert_size` is what is left of the datagram
behind the file certificate. -/
def Inside (len : ℕ) (o : Outcome) : Prop :=
  o.returned ≤ 0 ∨ o.returned = 1 ∧ ∃ r, o.response = some r
    ∧ 24 ≤ len + 1
    ∧ (∃ k, r.username ≤ k ∧ k ≤ len ∧ byteAt o.in_buf k = 0)
    ∧ r.fcert + 68 ≤ len + 1 ∧ r.scert_hd + 24 ≤ len + 1
    ∧ 0 ≤ r.scert_size.toInt ∧ r.scert_size.toInt = len - (r.fcert + 68 : ℕ)

/-- Both offsets stay in the datagram, of which the NUL behind it may be the last byte. Where
the song id ends in that NUL, it is turned around, and the name needs another one. -/
def Contained (net_to_host : Bool) (d : List U8) : Prop :=
  24 + (netLoad16 d 12).toNat ≤ d.length
    ∧ 24 + (netLoad16 d 14).toNat + 68 + 24 ≤ d.length + 1
    ∧ (net_to_host = true → 24 + (netLoad16 d 14).toNat + 68 + 24 = d.length + 1 →
      d.length < 31 + (netLoad16 d 12).toNat →
        ∃ i, d.length ≤ i + 7 ∧ i + (31 + (netLoad16 d 12).toNat) ≤ 2 * d.length
          ∧ byteAt d i = 0)

/-- A difference of unsigned numbers that does not get below zero. -/
lemma scertSize_eq {len : ℕ} (co : U16) (hlen : len < 2147483648) (h : 92 + co.toNat ≤ len) :
    (scertSize len co).toInt = len - (92 + co.toNat : ℕ) := by
  have hco : co.toNat < 2 ^ 16 := co.toNat_lt
  have h8 : UInt32.toNat 8 = 8 := rfl
  have h16 : UInt32.toNat 16 = 16 := rfl
  have h68 : UInt32.toNat 68 = 68 := rfl
  have hnat : (UInt32.ofNat len - 8 - 16 - co.toUInt32 - 68).toNat = len - (92 + co.toNat) := by
    simp only [UInt32.toNat_sub, UInt32.toNat_ofNat', UInt16.toNat_toUInt32, h8, h16, h68]
    omega
  have hint : (scertSize len co).toInt
      = (UInt32.ofNat len - 8 - 16 - co.toUInt32 - 68).toBitVec.toInt := rfl
  rw [hint, BitVec.toInt_eq_toNat_of_lt]
  · rw [UInt32.toNat_toBitVec, hnat]
    omega
  · rw [UInt32.toNat_toBitVec, hnat]
    omega

section Datagram

variable (net_to_host md5txtbuf : Bool) {d junk : List U8}

/-- A datagram in the buffer, with the NUL behind it. -/
lemma byteAt_set_length (hj : junk ≠ []) {i : ℕ} (hi : i ≤ d.length) :
    byteAt ((d ++ junk).set d.length 0) i = byteAt d i := by
  obtain ⟨b, junk, rfl⟩ := List.exists_cons_of_ne_nil hj
  rw [byteAt, byteAt, List.set_append_right _ _ le_rfl, Nat.sub_self, List.set_cons_zero,
    List.getD_eq_getElem?_getD, List.getD_eq_getElem?_getD]
  rcases Nat.lt_or_eq_of_le hi with hlt | rfl
  · rw [List.getElem?_append_left hlt]
  · rw [List.getElem?_append_right le_rfl, List.getElem?_eq_none le_rfl, Nat.sub_self]
    rfl

lemma netLoad16_set_length (hj : junk ≠ []) {i : ℕ} (hi : i + 1 ≤ d.length) :
    netLoad16 ((d ++ junk).set d.length 0) i = netLoad16 d i := by
  rw [netLoad16, netLoad16, byteAt_set_length hj (by omega), byteAt_set_length hj hi]

/-- The buffer holds the datagram and the NUL. -/
lemma length_lt_buffer (hj : junk ≠ []) :
    d.length + 1 ≤ (headersToHost ((d ++ junk).set d.length 0)).length := by
  have hne := List.length_pos_iff.mpr hj
  rw [headersToHost_length, List.length_set, List.length_append]
  omega

lemma le_length_set {n : ℕ} (hm : n ≤ (d ++ junk).length) :
    n ≤ ((d ++ junk).set d.length 0).length := by
  rw [List.length_set]
  exact hm

/-- What is handed out inside has its offsets in the datagram. -/
lemma contained_of_inside (hj : junk ≠ []) (hm : 16 ≤ (d ++ junk).length) {o : Outcome}
    (ho : handOut net_to_host md5txtbuf d.length
      (headersToHost ((d ++ junk).set d.length 0)) = .ok o)
    (hin : Inside d.length o) : Contained net_to_host d := by
  have hm' := le_length_set hm
  rw [handOut, username_offset_headersToHost hm', certs_offset_headersToHost hm'] at ho
  obtain ⟨n, hn, ho⟩ := bind_eq_ok ho
  obtain ⟨t, -, ho⟩ := bind_eq_ok ho
  obtain rfl := Except.ok.inj ho
  obtain rfl := eq_of_convert hn
  rcases hin with h | ⟨-, r, hr, -, ⟨k, huk, hkl, h0⟩, hf, hs, -⟩
  · exact absurd h (by norm_num)
  obtain rfl := Option.some.inj hr
  dsimp only at huk hkl h0 hf hs
  have h91 : 91 ≤ d.length := by omega
  rw [netLoad16_set_length hj (by omega)] at huk
  rw [netLoad16_set_length hj (by omega)] at hs
  refine ⟨by omega, hs, ?_⟩
  rintro rfl hend hname
  rw [netLoad16_set_length hj (by omega),
    byteAt_converted_songid (hs.trans (length_lt_buffer hj)) (by omega) (by omega),
    byteAt_headersToHost (by omega), byteAt_set_length hj (by omega)] at h0
  exact ⟨_, by omega, by omega, h0⟩

/-- With the offsets in the datagram, the name ends in it. -/
lemma exists_nul_of_contained (hj : junk ≠ []) (h : Contained net_to_host d) :
    ∃ k, 24 + (netLoad16 d 12).toNat ≤ k ∧ k ≤ d.length
      ∧ byteAt (converted net_to_host (24 + (netLoad16 d 14).toNat)
        (headersToHost ((d ++ junk).set d.length 0))) k = 0 := by
  obtain ⟨hname, hcert, hend⟩ := h
  have hfit := hcert.trans (length_lt_buffer hj)
  have hnul : byteAt d d.length = 0 := by
    rw [byteAt, List.getD_eq_getElem?_getD, List.getElem?_eq_none le_rfl, Option.getD_none]
  rcases Nat.lt_or_eq_of_le hcert with hlt | heq
  · -- the NUL behind the datagram is not moved
    refine ⟨d.length, hname, le_rfl, ?_⟩
    rw [byteAt_converted (by omega), byteAt_headersToHost (by omega),
      byteAt_set_length hj le_rfl, hnul]
  · cases net_to_host with
    | false =>
        refine ⟨d.length, hname, le_rfl, ?_⟩
        rw [converted, if_neg Bool.false_ne_true, byteAt_headersToHost (by omega),
          byteAt_set_length hj le_rfl, hnul]
    | true =>
        -- it is now where the song id begins
        rcases Nat.lt_or_ge d.length (31 + (netLoad16 d 12).toNat) with hlate | hearly
        · obtain ⟨i, hi, hi', h0⟩ := hend rfl heq hlate
          refine ⟨2 * d.length - 7 - i, by omega, by omega, ?_⟩
          rw [byteAt_converted_songid hfit (by omega) (by omega),
            byteAt_headersToHost (by omega), byteAt_set_length hj (by omega), ← h0]
          congr 1
          omega
        · refine ⟨d.length - 7, by omega, by omega, ?_⟩
          rw [byteAt_converted_songid hfit (by omega) (by omega),
            byteAt_headersToHost (by omega), byteAt_set_length hj (by omega), ← hnul]
          congr 1
          omega

/-- With the offsets in the datagram, so is all that is handed out. -/
lemma inside_of_contained (hj : junk ≠ []) (hm : 16 ≤ (d ++ junk).length)
    (hlen : d.length < 2147483648) (h : Contained net_to_host d) :
    ∃ o, handOut net_to_host md5txtbuf d.length
      (headersToHost ((d ++ junk).set d.length 0)) = .ok o ∧ Inside d.length o := by
  obtain ⟨hname, hcert, hend⟩ := h
  have hm' := le_length_set hm
  have hfit := hcert.trans (length_lt_buffer hj)
  have hfile : 24 + (netLoad16 d 14).toNat + 68 ≤ d.length + 1 := by omega
  obtain ⟨t, ht⟩ := md5Text_of_le md5txtbuf (24 + (netLoad16 d 14).toNat)
    (converted net_to_host (24 + (netLoad16 d 14).toNat)
      (headersToHost ((d ++ junk).set d.length 0))) (by rw [converted_length]; omega)
  rw [handOut, username_offset_headersToHost hm', certs_offset_headersToHost hm',
    netLoad16_set_length hj (by omega), netLoad16_set_length hj (by omega)]
  simp only [convert_of_le hfit, ht, bind, Except.bind]
  refine ⟨_, rfl, Or.inr ⟨rfl, _, rfl, by omega,
    exists_nul_of_contained net_to_host hj ⟨hname, hcert, hend⟩, hfile, hcert, ?_⟩⟩
  dsimp only
  have hsize := scertSize_eq (netLoad16 d 14) hlen (by omega)
  rw [certs_offset_converted (by omega), certs_offset_headersToHost hm',
    netLoad16_set_length hj (by omega), hsize]
  constructor
  · omega
  · congr 2
    omega

/-- The response in a datagram, once it is in the buffer. -/
lemma takeApart_inside_iff (hj : junk ≠ []) (hlen : d.length < 2147483648) :
    (∃ o, takeApart net_to_host md5txtbuf d.length (d ++ junk) = .ok o ∧ Inside d.length o)
      ↔ 16 ≤ (d ++ junk).length
        ∧ (d.length = 8 + (netLoad16 d 6).toNat → Contained net_to_host d) := by
  rcases Nat.lt_or_ge (d ++ junk).length 16 with hm | hm
  · rw [takeApart_of_short _ _ hm]
    constructor
    · rintro ⟨o, ho, -⟩
      cases ho
    · rintro ⟨h16, -⟩
      omega
  have hcheck : UInt32.ofNat d.length - 8 = (netLoad16 ((d ++ junk).set d.length 0) 6).toUInt32
      ↔ d.length = 8 + (netLoad16 d 6).toNat := by
    rw [length_check hlen]
    rcases Nat.lt_or_ge d.length 8 with h8 | h8
    · constructor
      · intro h
        omega
      · intro h
        omega
    · rw [netLoad16_set_length hj (by omega)]
  rw [takeApart_eq _ _ hm, and_iff_right hm]
  by_cases hok : d.length = 8 + (netLoad16 d 6).toNat
  · rw [if_neg (not_not.mpr (hcheck.mpr hok)), imp_iff_right hok]
    constructor
    · rintro ⟨o, ho, hin⟩
      exact contained_of_inside net_to_host md5txtbuf hj hm ho hin
    · exact inside_of_contained net_to_host md5txtbuf hj hm hlen
  · rw [if_pos (mt hcheck.mp hok)]
    constructor
    · intro _ h
      exact absurd h hok
    · intro _
      exact ⟨_, rfl, Or.inl (by norm_num)⟩

end Datagram

/-- The responses that are accepted only inside their datagram: there is none; or both headers
fit into the buffer, and the datagram has another length than its header says, or its offsets
stay in it. -/
def Kept (net_to_host : Bool) (recv_size : RecvSize) : Recv → Prop
  | .failed _ => True
  | .datagram bytes =>
      let d := bytes.take recv_size.val
      d = [] ∨ 15 ≤ recv_size.val
        ∧ (d.length = 8 + (netLoad16 d 6).toNat → Contained net_to_host d)

/-- A datagram that is not empty is taken apart. -/
lemma responseReceive_datagram (net_to_host md5txtbuf : Bool) {recv_size : RecvSize}
    (fresh : Raw (recv_size.val + 1)) {bytes : List U8} (h : bytes.take recv_size.val ≠ []) :
    responseReceive net_to_host md5txtbuf recv_size fresh (.datagram bytes)
      = takeApart net_to_host md5txtbuf (bytes.take recv_size.val).length
        (bytes.take recv_size.val ++ fresh.val.drop (bytes.take recv_size.val).length) := by
  have hpos : ¬ (((bytes.take recv_size.val).length : ℕ) : ℤ) ≤ 0 := by
    have hlen := List.length_pos_iff.mpr h
    omega
  rw [responseReceive, receive]
  simp only [if_neg hpos, Int.toNat_natCast]

/-- What is behind a datagram in its buffer. -/
lemma drop_take_length_ne_nil {recv_size : RecvSize} (fresh : Raw (recv_size.val + 1))
    (bytes : List U8) : fresh.val.drop (bytes.take recv_size.val).length ≠ [] := by
  have hfresh := fresh.property
  rw [Ne, List.drop_eq_nil_iff, List.length_take]
  omega

lemma length_take_lt (recv_size : RecvSize) (bytes : List U8) :
    (bytes.take recv_size.val).length < 2147483648 := by
  have hsize := recv_size.property
  rw [List.length_take]
  omega

/-- **A response is accepted only inside its datagram if and only if its offsets, which nothing
checks, stay in it.** -/
theorem responseReceive_inside_iff (net_to_host md5txtbuf : Bool) (recv_size : RecvSize)
    (fresh : Raw (recv_size.val + 1)) (r : Recv) :
    (∃ o, responseReceive net_to_host md5txtbuf recv_size fresh r = .ok o
      ∧ Inside (receive recv_size fresh r).len.toNat o) ↔ Kept net_to_host recv_size r := by
  cases r with
  | failed wouldBlock =>
      refine iff_of_true ?_ trivial
      have hle : (receive recv_size fresh (.failed wouldBlock)).len ≤ 0 := by
        cases wouldBlock with
        | false => exact neg_one_lt_zero.le
        | true => exact le_rfl
      rw [responseReceive]
      simp only [if_pos hle]
      exact ⟨_, rfl, Or.inl hle⟩
  | datagram bytes =>
      by_cases hd : bytes.take recv_size.val = []
      · refine iff_of_true ?_ (Or.inl hd)
        have hle : (receive recv_size fresh (.datagram bytes)).len ≤ 0 := by
          simp only [receive, hd, List.length_nil, Nat.cast_zero, le_refl]
        rw [responseReceive]
        simp only [if_pos hle]
        exact ⟨_, rfl, Or.inl hle⟩
      · have hsize : 16 ≤ (bytes.take recv_size.val
            ++ fresh.val.drop (bytes.take recv_size.val).length).length
            ↔ 15 ≤ recv_size.val := by
          have hfresh := fresh.property
          rw [List.length_append, List.length_drop, List.length_take]
          omega
        rw [responseReceive_datagram _ _ _ hd]
        show (∃ o, _ ∧ Inside (((bytes.take recv_size.val).length : ℕ) : ℤ).toNat o) ↔ _
        rw [Int.toNat_natCast, takeApart_inside_iff _ _ (drop_take_length_ne_nil fresh bytes)
          (length_take_lt recv_size bytes), hsize, Kept, or_iff_right hd]

/-- A response of 24 bytes whose name is at 65559. -/
def nameOutside : List U8 :=
  [1, 0, 0, 0, 4, 1, 0, 16, 1, 0, 0, 0, 255, 255, 0, 0, 0, 0, 0, 0, 0, 0, 0, 0]

theorem not_inside_nameOutside :
    ¬ ∃ o, responseReceive true false ⟨4096, by decide⟩
        ⟨List.replicate 4097 0, List.length_replicate⟩ (.datagram nameOutside) = .ok o
      ∧ Inside 24 o := by
  have htake : nameOutside.take 4096 = nameOutside := rfl
  have hne : nameOutside.take 4096 ≠ [] := by
    rw [htake]
    exact List.cons_ne_nil _ _
  rw [responseReceive_datagram _ _ _ hne]
  intro h
  have hkept := (takeApart_inside_iff true false (drop_take_length_ne_nil _ _)
    (length_take_lt ⟨4096, by decide⟩ nameOutside)).mp h
  have hname := (hkept.2 rfl).1
  simp only [htake] at hname
  exact absurd hname (by decide)

end Napd.CidClient
