import LinuxPtp.Wire.Invertible

/-!
# Lists of TLVs in host order

The TLVs behind a message are converted one after the other for sending, and
parsed one after the other on reception.
-/

namespace LinuxPtp.Wire

open ByteOrder Access

variable {host : Host} {extra received : TlvExtra} {mem mem' target : Memory}
variable {type length lo hi mid : ℕ} {extras receiveds : List TlvExtra}

/-! ## One TLV with its header -/

/-- What one round of sending makes of a TLV and how one round of reception undoes
it. -/
structure SuffixConverts (host : Host) (extra received : TlvExtra) (length : ℕ)
    (mem wire target : Memory) : Prop where
  sent : Runs (suffixTlvPreSend host extra) mem () wire
  frame : ∀ i, i < extra.tlv ∨ extra.tlv + sizeofTlv + length ≤ i →
    wire i = mem i
  received : ∀ len, sizeofTlv + length ≤ len →
    Yields (suffixTlvPostRecv host extra.tlv len) extra.tlv
      (extra.tlv + sizeofTlv + length) wire (received, length) target

theorem suffixConverts (htype : hostWord host.endian mem extra.tlv 2 = type)
    (hlength : hostWord host.endian mem (extra.tlv + 2) 2 = length)
    (heven : length % 2 = 0)
    (hformat : Formatted host.endian type length extra.tlv mem)
    (hpoints : PointsInto extra (located host.endian type length extra.tlv mem)) :
    ∃ wire, SuffixConverts host extra
      (located host.endian type length extra.tlv mem) length mem wire
      (hostEcho host.endian type length extra.tlv mem) := by
  obtain ⟨body, hconverts⟩ := tlvConverts hformat hpoints
  have hheader : sizeofTlv = 4 := rfl
  have htwice : swapAll host.endian extra.tlv tlvHeader
      (swapAll host.endian extra.tlv tlvHeader body) = body :=
    swapAll_swapAll tlvHeader_disjoint body
  have hword : ∀ offset, offset + 2 ≤ extra.tlv + 4 →
      hostWord host.endian body offset 2 = hostWord host.endian mem offset 2 :=
    fun offset hoffset => hostWord_congr _ fun i _ hlt =>
      hconverts.frame i (Or.inl (by omega))
  have htypeWord : hostWord host.endian body
      (extra.tlv + Tlv.type.offset) Tlv.type.width = type :=
    (hword extra.tlv (by omega)).trans htype
  have hlengthWord : hostWord host.endian body
      (extra.tlv + Tlv.length.offset) Tlv.length.width = length :=
    (hword (extra.tlv + 2) (by omega)).trans hlength
  refine ⟨swapAll host.endian extra.tlv tlvHeader body, ?_, fun i hi => ?_,
    fun len hroom => ?_⟩
  · refine (Runs.readWord host.endian _ _ mem).bind
      ((Runs.readWord host.endian _ _ mem).bind ?_)
    have htype' : hostWord host.endian mem
      (extra.tlv + Tlv.type.offset) Tlv.type.width = type := htype
    have hlength' : hostWord host.endian mem
      (extra.tlv + Tlv.length.offset) Tlv.length.width = length := hlength
    rw [htype', hlength']
    exact hconverts.sent.bind (swapFields_runs host _ _ body)
  · rw [swapAll_outside 0 4 (by decide) (by omega)]
    exact hconverts.frame i (by omega)
  · have hswap : Yields (swapFields host extra.tlv tlvHeader) extra.tlv
        (extra.tlv + sizeofTlv + length)
        (swapAll host.endian extra.tlv tlvHeader body) () body := by
      have hyields := Yields.conversion
        (fieldsConversion host.endian extra.tlv 0 4 tlvHeader (by decide))
        (swapFields_runs host extra.tlv tlvHeader) (Nat.le_add_right _ _)
        (show extra.tlv + 4 ≤ extra.tlv + sizeofTlv + length by omega)
        (swapAll host.endian extra.tlv tlvHeader body)
      simp only [fieldsConversion, htwice] at hyields
      exact hyields
    refine hswap.bind ?_
    refine (Yields.readWord host.endian (Nat.le_add_right _ _) ?_ body).bind ?_
    · simp only [Tlv.type]
      omega
    refine (Yields.readWord host.endian (Nat.le_add_right _ _) ?_ body).bind ?_
    · simp only [Tlv.length]
      omega
    rw [htypeWord, hlengthWord]
    refine .passes (not_not.mpr heven) (.passes (by omega) ?_)
    have hconfined : Confined onBuffer extra.tlv
        (extra.tlv + sizeofTlv + length)
        (tlvPostRecv host type length { tlv := extra.tlv }) :=
      confined_tlvPostRecv host (Nat.le_add_right _ _)
        (fun _ => Nat.le_add_right _ _) le_rfl
    exact (Yields.of_confined hconfined hconverts.received).bind (.pure _ _)

/-! ## Descriptors -/

/-- There are descriptors for so many TLVs, in the pool or from `calloc`. -/
def HasDescriptors (host : Host) (state : ParseState) (count : ℕ) : Prop :=
  count ≤ state.pool.free ∨ ∀ calls, host.calloc calls = true

theorem tlvExtraAlloc_run {store : Store ParseState} {count : ℕ}
    (hsupply : HasDescriptors host store.rest (count + 1)) :
    ∃ pool, tlvExtraAlloc host store =
        (.ok (), { store with rest := { store.rest with pool := pool } }) ∧
      HasDescriptors host { store.rest with pool := pool } count := by
  by_cases hfree : 0 < store.rest.pool.free
  · refine ⟨{ store.rest.pool with free := store.rest.pool.free - 1 }, ?_, ?_⟩
    · simp [tlvExtraAlloc, bind_run, getRest, hfree, modifyRest_run]
    · rcases hsupply with hpool | hcalloc
      · refine Or.inl ?_
        simp only
        omega
      · exact Or.inr hcalloc
  · rcases hsupply with hpool | hcalloc
    · exact absurd hpool (by omega)
    · refine ⟨{ store.rest.pool with callocs := store.rest.pool.callocs + 1 }, ?_,
        Or.inr hcalloc⟩
      simp [tlvExtraAlloc, bind_run, getRest, hfree, modifyRest_run, hcalloc]

/-! ## Whole lists -/

/-- Sending converts the TLVs between two offsets, and reception converts them
back and attaches their descriptors. -/
def ListConverts (host : Host) (extras receiveds : List TlvExtra) (lo hi : ℕ)
    (mem target : Memory) : Prop :=
  ∃ wire, Runs (suffixPreSendLoop host extras) mem () wire ∧
    (∀ i, i < lo ∨ hi ≤ i → wire i = mem i) ∧
    ∀ (store : Store ParseState) (rounds : ℕ), hi - lo < rounds →
      AgreeOn lo hi store.mem wire →
      HasDescriptors host store.rest receiveds.length →
      ∃ mem' spans rest, suffixLoop host rounds lo (hi - lo) store =
          (.ok (), ⟨mem', spans, rest⟩) ∧
        rest.tlvList = store.rest.tlvList ++ receiveds ∧
        rest.pdu = store.rest.pdu ∧ AgreeOn lo hi mem' target ∧
        ∀ i, i < lo ∨ hi ≤ i → mem' i = store.mem i

theorem ListConverts.congr {target' : Memory}
    (hconverts : ListConverts host extras receiveds lo hi mem target)
    (hagree : AgreeOn lo hi target target') :
    ListConverts host extras receiveds lo hi mem target' := by
  obtain ⟨wire, hruns, hframe, hreceive⟩ := hconverts
  refine ⟨wire, hruns, hframe, fun store rounds hrounds hsame hsupply => ?_⟩
  obtain ⟨mem', spans, rest, hloop, hlist, hpdu, hagree', hframe'⟩ :=
    hreceive store rounds hrounds hsame hsupply
  exact ⟨mem', spans, rest, hloop, hlist, hpdu, hagree'.trans hagree, hframe'⟩

theorem listConverts_nil : ListConverts host [] [] lo lo mem mem := by
  refine ⟨mem, .pure () mem, fun _ _ => rfl, fun store rounds hrounds hagree _ => ?_⟩
  obtain ⟨rounds, rfl⟩ := Nat.exists_eq_add_of_lt hrounds
  refine ⟨store.mem, store.spans, store.rest, ?_, (List.append_nil _).symm, rfl,
    hagree, fun _ _ => rfl⟩
  rw [Nat.sub_self, suffixLoop, if_pos (by decide)]
  rfl

theorem listConverts_cons {wire first : Memory}
    (hfirst : SuffixConverts host extra received length mem wire first)
    (hlo : extra.tlv = lo) (hmid : lo + sizeofTlv + length = mid) (hhi : mid ≤ hi)
    (htarget : AgreeOn lo mid first target)
    (hrest : ∀ mem', AgreeOn mid hi mem' mem →
      ListConverts host extras receiveds mid hi mem' target) :
    ListConverts host (extra :: extras) (received :: receiveds) lo hi mem
      target := by
  obtain ⟨wire', hruns, hframe, hreceive⟩ := hrest wire fun i hge _ =>
    hfirst.frame i (Or.inr (by rw [hlo, hmid]; exact hge))
  refine ⟨wire', hfirst.sent.bind hruns, fun i hi => ?_,
    fun store rounds hrounds hagree hfree => ?_⟩
  · rw [hframe i (by omega), hfirst.frame i (by omega)]
  · obtain ⟨rounds, rfl⟩ : ∃ rest, rounds = rest + 1 := ⟨rounds - 1, by omega⟩
    have hheader : sizeofTlv = 4 := rfl
    rw [List.length_cons] at hfree
    obtain ⟨pool, halloc, hsupply⟩ := tlvExtraAlloc_run hfree
    have hsame : AgreeOn extra.tlv (extra.tlv + sizeofTlv + length) store.mem
        wire := by
      rw [hlo, hmid]
      exact fun i hge hlt => (hagree i hge (by omega)).trans
        (hframe i (Or.inl hlt))
    obtain ⟨mem₁, hround, hagree₁, hframe₁⟩ :=
      hfirst.received (hi - lo) (by omega) store.mem hsame
    rw [hlo, hmid] at hagree₁ hframe₁
    obtain ⟨spans₁, hround⟩ := hround store.spans { store.rest with pool := pool }
    obtain ⟨mem₂, spans₂, rest₂, hloop, hlist, hpdu, hagree₂, hframe₂⟩ := hreceive
      ⟨mem₁, spans₁, { store.rest with
        pool := pool, tlvList := store.rest.tlvList ++ [received] }⟩ rounds
      (by omega)
      (fun i hge hlt => (hframe₁ i (Or.inr hge)).trans (hagree i (by omega) hlt))
      hsupply
    refine ⟨mem₂, spans₂, rest₂, ?_, ?_, hpdu, fun i hge hlt => ?_, fun i hi => ?_⟩
    · have hpost : onFail ParseState.recycle (suffixTlvPostRecv host lo (hi - lo))
          { store with rest := { store.rest with pool := pool } } =
            (.ok (received, length),
              ⟨mem₁, spans₁, { store.rest with pool := pool }⟩) :=
        onFail_eq_ok.mpr (hlo ▸ hround)
      rw [suffixLoop, if_neg (by omega), bind_run, halloc]
      dsimp only
      rw [bind_run, hpost]
      dsimp only
      rw [bind_run, msgTlvAttach, modifyRest_run, hmid,
        show hi - lo - sizeofTlv - length = hi - mid by omega]
      exact hloop
    · rw [hlist, List.append_assoc, List.singleton_append]
    · by_cases hi : i < mid
      · exact (hframe₂ i (Or.inl hi)).trans
          ((hagree₁ i hge hi).trans (htarget i hge hi))
      · exact hagree₂ i (by omega) hlt
    · exact (hframe₂ i (by omega)).trans (hframe₁ i (by omega))

end LinuxPtp.Wire
