import LinuxPtp.Wire.HostMessage

/-!
# Building messages

`msg_tlv_append` makes room for one more TLV behind a message in host order, and
the caller fills it in.  The TLVs stay contiguous, the message length counts them,
and a message that was built so is decoded to the same TLVs.
-/

namespace LinuxPtp.Wire

open ByteOrder Access

section

variable (host : Host)

/-! ## Appending -/

def msgSuffix : WireM (Option ℕ) := do
  let code ← msgType
  pure ((MsgType.ofCode code).bind MsgType.suffix)

/-- Where the next TLV goes: behind the last one, if there is any. -/
def msgTlvEnd (suffix : ℕ) : Option TlvExtra → WireM ℕ
  | none => pure suffix
  | some tmp => do
      let length ← readField host tmp.tlv Tlv.length
      pure (tmp.tlv + sizeofTlv + length)

def msgTlvPrepare (length : ℕ) : WireM (Option TlvExtra) := do
  let suffix ← msgSuffix
  match suffix with
  | none => pure none
  | some suffix => do
      let state ← getRest
      let ptr ← msgTlvEnd host suffix state.tlvList.getLast?
      if ptr + length > messageDataSize then pure none
      else do
        let found ← Access.succeeds (tlvExtraAlloc host)
        pure (if found then some { tlv := ptr } else none)

def msgTlvAppend (length : ℕ) : WireM (Option TlvExtra) := do
  let extra ← msgTlvPrepare host length
  match extra with
  | none => pure none
  | some extra => do
      let messageLength ← readField host 0 Header.messageLength
      writeWord host.endian Header.messageLength.offset
        Header.messageLength.width (messageLength + length)
      msgTlvAttach extra
      pure (some extra)

end

/-! ## Filling -/

structure HostTlv where
  type : ℕ
  body : List UInt8
  type_lt : type < 2 ^ 16
  even : body.length % 2 = 0
  deriving DecidableEq

namespace HostTlv

def size (tlv : HostTlv) : ℕ := sizeofTlv + tlv.body.length

/-- Append a TLV and fill it in.  The result tells whether there was room. -/
def append (host : Host) (tlv : HostTlv) : WireM Bool := do
  let extra ← msgTlvAppend host tlv.size
  match extra with
  | none => pure false
  | some extra => do
      writeWord host.endian (extra.tlv + Tlv.type.offset) Tlv.type.width tlv.type
      writeWord host.endian (extra.tlv + Tlv.length.offset) Tlv.length.width
        tlv.body.length
      writeBytes (extra.tlv + sizeofTlv) tlv.body
      pure true

/-- Append one TLV after the other.  The result are those that found room. -/
def appendAll (host : Host) : List HostTlv → WireM (List HostTlv)
  | [] => pure []
  | tlv :: tlvs => do
      let done ← tlv.append host
      let rest ← appendAll host tlvs
      pure (if done then tlv :: rest else rest)

def total (tlvs : List HostTlv) : ℕ := (tlvs.map size).sum

/-- The TLV lies at `lo`, in host order. -/
structure At (endian : Endian) (mem : Memory) (lo : ℕ) (tlv : HostTlv) : Prop where
  type : hostWord endian mem lo 2 = tlv.type
  length : hostWord endian mem (lo + 2) 2 = tlv.body.length
  body : bytesAt mem (lo + sizeofTlv) tlv.body.length = tlv.body

/-- The TLVs lie one behind the other from one offset on, and end at another. -/
def Placed (endian : Endian) (mem : Memory) (hi : ℕ) :
    ℕ → List TlvExtra → List HostTlv → Prop
  | lo, [], [] => lo = hi
  | lo, extra :: extras, tlv :: tlvs =>
      extra = { tlv := lo } ∧ At endian mem lo tlv ∧
        Placed endian mem hi (lo + tlv.size) extras tlvs
  | _, _, _ => False

variable {endian : Endian} {mem mem' : Memory} {lo mid hi : ℕ} {tlv : HostTlv}
variable {extras : List TlvExtra} {tlvs : List HostTlv}

theorem total_append (tlvs others : List HostTlv) :
    total (tlvs ++ others) = total tlvs + total others := by
  rw [total, List.map_append, List.sum_append]
  rfl

theorem total_cons (tlv : HostTlv) (tlvs : List HostTlv) :
    total (tlv :: tlvs) = tlv.size + total tlvs := rfl

/-- What is laid out depends on its own bytes. -/
theorem At.congr (hat : At endian mem lo tlv)
    (hagree : AgreeOn lo (lo + tlv.size) mem' mem) : At endian mem' lo tlv where
  type := (hostWord_congr endian fun i hge hlt =>
    hagree i hge (by simp only [size, sizeofTlv]; omega)).trans hat.type
  length := (hostWord_congr endian fun i hge hlt =>
    hagree i (by omega) (by simp only [size, sizeofTlv]; omega)).trans hat.length
  body := (bytesAt_congr fun i hge hlt =>
    hagree i (by simp only [sizeofTlv] at hge; omega)
      (by simp only [size]; omega)).trans hat.body

theorem At.byte (hat : At endian mem lo tlv) {i : ℕ} (hi : i < tlv.body.length) :
    mem (lo + sizeofTlv + i) = tlv.body.getD i 0 := by
  have hbody := congrArg (·.getD i 0) hat.body
  simp only [bytesAt] at hbody
  rw [← hbody]
  simp [hi]

namespace Placed

theorem le (hplaced : Placed endian mem hi lo extras tlvs) :
    lo + total tlvs = hi := by
  induction extras generalizing lo tlvs with
  | nil =>
    cases tlvs with
    | nil => exact hplaced
    | cons => exact hplaced.elim
  | cons extra extras ih =>
    cases tlvs with
    | nil => exact hplaced.elim
    | cons tlv tlvs =>
      have := ih hplaced.2.2
      rw [total_cons]
      omega

/-- TLVs stay placed in memory that looks the same. -/
theorem congr (hplaced : Placed endian mem hi lo extras tlvs)
    (hagree : AgreeOn lo hi mem' mem) : Placed endian mem' hi lo extras tlvs := by
  induction extras generalizing lo tlvs with
  | nil =>
    cases tlvs with
    | nil => exact hplaced
    | cons => exact hplaced.elim
  | cons extra extras ih =>
    cases tlvs with
    | nil => exact hplaced.elim
    | cons tlv tlvs =>
      obtain ⟨hextra, hat, hrest⟩ := hplaced
      have hend := hrest.le
      exact ⟨hextra, hat.congr (hagree.mono le_rfl (by omega)),
        ih hrest (hagree.mono (by omega) le_rfl)⟩

/-- One more TLV behind the others. -/
theorem push (hplaced : Placed endian mem mid lo extras tlvs)
    (hat : At endian mem mid tlv) :
    Placed endian mem (mid + tlv.size) lo (extras ++ [{ tlv := mid }])
      (tlvs ++ [tlv]) := by
  induction extras generalizing lo tlvs with
  | nil =>
    cases tlvs with
    | nil =>
      obtain rfl : lo = mid := hplaced
      exact ⟨rfl, hat, rfl⟩
    | cons => exact hplaced.elim
  | cons extra extras ih =>
    cases tlvs with
    | nil => exact hplaced.elim
    | cons first tlvs => exact ⟨hplaced.1, hplaced.2.1, ih hplaced.2.2⟩

/-- The last TLV ends where all of them do. -/
theorem last (hplaced : Placed endian mem hi lo extras tlvs) :
    match extras.getLast? with
    | none => lo = hi
    | some last => last.tlv + sizeofTlv +
        hostWord endian mem (last.tlv + 2) 2 = hi := by
  induction extras generalizing lo tlvs with
  | nil =>
    cases tlvs with
    | nil => exact hplaced
    | cons => exact hplaced.elim
  | cons extra extras ih =>
    cases tlvs with
    | nil => exact hplaced.elim
    | cons tlv tlvs =>
      obtain ⟨rfl, hat, hrest⟩ := hplaced
      have hlast := ih hrest
      cases extras with
      | nil =>
        simp only [List.getLast?_singleton, hat.length]
        simp only [List.getLast?_nil, size] at hlast
        omega
      | cons second extras =>
        rw [List.getLast?_cons_cons]
        exact hlast

end Placed

/-! ## Messages under construction -/

/-- A message after TLVs have been appended to `start`: they lie one behind the
other after the body, the message length counts them, and all fit into the
buffer. -/
structure Built (endian : Endian) (type : MsgType) (start : Memory)
    (tlvs : List HostTlv) (store : Store ParseState) : Prop where
  placed : Placed endian store.mem (type.pduLength + total tlvs) type.pduLength
    store.rest.tlvList tlvs
  messageLength : hostWord endian store.mem 2 2 = type.pduLength + total tlvs
  fits : type.pduLength + total tlvs ≤ messageDataSize
  fixed : ∀ i < type.pduLength, i < 2 ∨ 4 ≤ i → store.mem i = start i
  admitted : type.suffix = none → tlvs = []

variable {host : Host} {type : MsgType} {start : Memory} {store : Store ParseState}

theorem msgSuffix_run (htype : typeOf store.mem = some type) :
    msgSuffix store =
      (.ok type.suffix, { store with spans := ⟨0, 1⟩ :: store.spans }) := by
  have hknown : MsgType.ofCode ((store.mem 0).toNat % 16) = some type := htype
  rw [msgSuffix, bind_run, msgType_run]
  dsimp only
  rw [hknown]
  rfl

namespace Built

theorem typeOf (hbuilt : Built endian type start tlvs store)
    (htype : Wire.typeOf start = some type) :
    Wire.typeOf store.mem = some type := by
  have hpdu := pduLength_ge type
  rw [Wire.typeOf, hbuilt.fixed 0 (by omega) (by omega)]
  exact htype

/-- The room that `msg_tlv_prepare` finds is behind the last TLV. -/
theorem msgTlvEnd_run (hbuilt : Built host.endian type start tlvs store) :
    ∃ spans, msgTlvEnd host type.pduLength store.rest.tlvList.getLast? store =
      (.ok (type.pduLength + total tlvs), { store with spans := spans }) := by
  have hlast := hbuilt.placed.last
  cases hlist : store.rest.tlvList.getLast? with
  | none =>
    simp only [hlist] at hlast
    exact ⟨store.spans, by rw [← hlast]; rfl⟩
  | some last =>
    simp only [hlist] at hlast
    refine ⟨⟨last.tlv + 2, 2⟩ :: store.spans, ?_⟩
    rw [msgTlvEnd, bind_run, readField_run]
    dsimp only
    rw [← hlast]
    rfl

end Built

/-- A descriptor is found, or nothing has happened. -/
theorem succeeds_tlvExtraAlloc_run (store : Store ParseState) :
    ∃ found rest, Access.succeeds (tlvExtraAlloc host) store =
        (.ok found, { store with rest := rest }) ∧
      rest.tlvList = store.rest.tlvList ∧
      (HasDescriptors host store.rest 1 → found = true) := by
  by_cases hfree : 0 < store.rest.pool.free
  · exact ⟨true, { store.rest with
      pool := { store.rest.pool with free := store.rest.pool.free - 1 } }, by
      simp [Access.succeeds, tlvExtraAlloc, bind_run, getRest, hfree, modifyRest_run],
      rfl, fun _ => rfl⟩
  · refine ⟨host.calloc store.rest.pool.callocs, { store.rest with
      pool := { store.rest.pool with callocs := store.rest.pool.callocs + 1 } },
      ?_, rfl, ?_⟩
    · cases hcalloc : host.calloc store.rest.pool.callocs <;>
        simp [Access.succeeds, tlvExtraAlloc, bind_run, getRest, hfree, modifyRest_run,
          hcalloc]
    · rintro (hpool | hcalloc)
      · exact absurd hpool (by omega)
      · exact hcalloc _

/-- There is room for so many bytes more, and a descriptor for them. -/
def HasRoom (host : Host) (type : MsgType) (used length : ℕ) (state : ParseState) :
    Prop :=
  type.suffix ≠ none ∧ used + length ≤ messageDataSize ∧ HasDescriptors host state 1

/-- Room is made for a TLV, or the message stays as it is. -/
theorem msgTlvPrepare_run {length : ℕ} (htype : Wire.typeOf start = some type)
    (hbuilt : Built host.endian type start tlvs store) :
    ∃ extra spans rest, msgTlvPrepare host length store =
        (.ok extra, ⟨store.mem, spans, rest⟩) ∧
      rest.tlvList = store.rest.tlvList ∧
      (∀ found, extra = some found →
        found = { tlv := type.pduLength + total tlvs } ∧ type.suffix ≠ none ∧
          type.pduLength + total tlvs + length ≤ messageDataSize) ∧
      (HasRoom host type (type.pduLength + total tlvs) length store.rest →
        extra ≠ none) := by
  rw [msgTlvPrepare, bind_run, msgSuffix_run (hbuilt.typeOf htype)]
  dsimp only
  cases hsuffix : type.suffix with
  | none =>
    exact ⟨none, _, store.rest, rfl, rfl, by simp,
      fun hroom => absurd hsuffix hroom.1⟩
  | some ptr =>
    obtain rfl := MsgType.suffix_eq_pduLength hsuffix
    have hbuilt' : Built host.endian type start tlvs
        ⟨store.mem, ⟨0, 1⟩ :: store.spans, store.rest⟩ :=
      ⟨hbuilt.placed, hbuilt.messageLength, hbuilt.fits, hbuilt.fixed,
        hbuilt.admitted⟩
    obtain ⟨spans, hend⟩ := hbuilt'.msgTlvEnd_run
    dsimp only
    rw [bind_run, getRest]
    dsimp only
    rw [bind_run, hend]
    dsimp only
    by_cases hfull : type.pduLength + total tlvs + length > messageDataSize
    · rw [if_pos hfull]
      exact ⟨none, _, store.rest, rfl, rfl, by simp,
        fun hroom => absurd hroom.2.1 (by omega)⟩
    · obtain ⟨found, rest, halloc, hlist, hsupply⟩ := 
        @succeeds_tlvExtraAlloc_run host ⟨store.mem, spans, store.rest⟩
      rw [if_neg hfull, bind_run, halloc]
      dsimp only
      refine ⟨_, spans, rest, rfl, hlist, fun extra hextra => ?_, fun hroom => ?_⟩
      · cases found
        · exact absurd hextra (Option.some_ne_none _).symm
        · exact ⟨(Option.some.inj hextra).symm, Option.some_ne_none _, by omega⟩
      · rw [hsupply hroom.2.2]
        exact Option.some_ne_none _

/-! ## One TLV more -/

def filled (endian : Endian) (tlv : HostTlv) (lo : ℕ) (mem : Memory) : Memory :=
  storeBytes (storeBytes (storeBytes mem lo (endian.encode 2 tlv.type)) (lo + 2)
    (endian.encode 2 tlv.body.length)) (lo + sizeofTlv) tlv.body

theorem filled_outside {i : ℕ} (hi : i < lo ∨ lo + tlv.size ≤ i) :
    filled endian tlv lo mem i = mem i := by
  simp only [size, sizeofTlv] at hi
  rw [filled, storeBytes_outside _ _ (by simp only [sizeofTlv]; omega),
    storeBytes_outside _ _ (by rw [length_encode]; omega),
    storeBytes_outside _ _ (by rw [length_encode]; omega)]

theorem hostWord_storeBytes_encode (number : ℕ) (hnumber : number < 2 ^ 16) :
    hostWord endian (storeBytes mem lo (endian.encode 2 number)) lo 2 = number := by
  have hbytes := bytesAt_storeBytes mem lo (endian.encode 2 number)
  rw [length_encode] at hbytes
  rw [hostWord, hbytes, Endian.value_encode]
  exact Nat.mod_eq_of_lt hnumber

theorem filled_at (hlength : tlv.body.length < 2 ^ 16) :
    At endian (filled endian tlv lo mem) lo tlv where
  type := by
    rw [← @hostWord_storeBytes_encode endian mem lo tlv.type tlv.type_lt]
    refine hostWord_congr endian fun i hge hlt => ?_
    rw [filled, storeBytes_outside _ _ (by simp only [sizeofTlv]; omega),
      storeBytes_outside _ _ (by omega)]
  length := by
    rw [← @hostWord_storeBytes_encode endian
      (storeBytes mem lo (endian.encode 2 tlv.type)) (lo + 2) _ hlength]
    refine hostWord_congr endian fun i hge hlt => ?_
    rw [filled, storeBytes_outside _ _ (by simp only [sizeofTlv]; omega)]
  body := bytesAt_storeBytes _ _ _

variable (tlv) in
/-- Appending a TLV either keeps the message as it is or makes it longer by the
TLV. -/
theorem append_run (htype : Wire.typeOf start = some type)
    (hbuilt : Built host.endian type start tlvs store) :
    ∃ done store', tlv.append host store = (.ok done, store') ∧
      (done = true → Built host.endian type start (tlvs ++ [tlv]) store') ∧
      (done = false → store'.mem = store.mem ∧
        store'.rest.tlvList = store.rest.tlvList) ∧
      (HasRoom host type (type.pduLength + total tlvs) tlv.size store.rest →
        done = true) := by
  obtain ⟨extra, spans, rest, hprepare, hlist, hfound, hroom⟩ :=
    @msgTlvPrepare_run _ _ _ _ _ tlv.size htype hbuilt
  cases extra with
  | none =>
    refine ⟨false, ⟨store.mem, spans, rest⟩, ?_, fun hno => absurd hno (by decide),
      fun _ => ⟨rfl, hlist⟩, fun hhas => absurd rfl (hroom hhas)⟩
    rw [append, bind_run, msgTlvAppend, bind_run, hprepare]
    rfl
  | some extra =>
    obtain ⟨rfl, hadmits, hfits⟩ := hfound extra rfl
    let used := type.pduLength + total tlvs
    let counted := storeBytes store.mem 2 (host.endian.encode 2 (used + tlv.size))
    have hpdu := pduLength_ge type
    have hsize : tlv.size = 4 + tlv.body.length := rfl
    have hmax : messageDataSize = 1500 := rfl
    have hrun : ∃ spans', tlv.append host store = (.ok true,
        ⟨filled host.endian tlv used counted, spans',
          { rest with tlvList := rest.tlvList ++ [{ tlv := used }] }⟩) := by
      let word := fun offset number =>
        Span.mk offset (host.endian.encode 2 number).length
      refine ⟨⟨used + sizeofTlv, tlv.body.length⟩ ::
        word (used + 2) tlv.body.length :: word used tlv.type ::
        word 2 (used + tlv.size) :: ⟨2, 2⟩ :: spans, ?_⟩
      rw [append, bind_run, msgTlvAppend, bind_run, hprepare]
      dsimp only
      rw [bind_run, readField_run]
      dsimp only
      have hword : hostWord host.endian store.mem (0 + Header.messageLength.offset)
        Header.messageLength.width = used := hbuilt.messageLength
      rw [hword]
      rfl
    obtain ⟨spans', hrun⟩ := hrun
    refine ⟨true, _, hrun, fun _ => ?_, fun hno => absurd hno (by decide), fun _ => rfl⟩
    have hkept : ∀ i, i < 2 ∨ 4 ≤ i ∧ i < used →
        filled host.endian tlv used counted i = store.mem i := by
      intro i hi
      rw [filled_outside (by omega)]
      exact storeBytes_outside _ _ (by rw [length_encode]; omega)
    have htotal : type.pduLength + total (tlvs ++ [tlv]) = used + tlv.size := by
      rw [total_append, ← Nat.add_assoc]
      rfl
    exact {
      placed := by
        rw [htotal, hlist]
        refine Placed.push (hbuilt.placed.congr fun i hge hlt => ?_) ?_
        · exact hkept i (Or.inr ⟨by omega, hlt⟩)
        · exact filled_at (by omega)
      messageLength := by
        rw [htotal, ← @hostWord_storeBytes_encode host.endian store.mem 2
          (used + tlv.size) (by omega)]
        exact hostWord_congr _ fun i _ hlt => filled_outside (by omega)
      fits := by omega
      fixed := fun i hlt hi => (hkept i (by omega)).trans (hbuilt.fixed i hlt hi)
      admitted := fun hnone => absurd hnone hadmits }

/-- Appending one TLV after the other. -/
theorem appendAll_run (htype : Wire.typeOf start = some type)
    (hbuilt : Built host.endian type start tlvs store) (others : List HostTlv) :
    ∃ added store', appendAll host others store = (.ok added, store') ∧
      added.Sublist others ∧ Built host.endian type start (tlvs ++ added) store' := by
  induction others generalizing tlvs store with
  | nil => exact ⟨[], store, rfl, .slnil, by rwa [List.append_nil]⟩
  | cons tlv others ih =>
    obtain ⟨done, store₁, happend, hyes, hno, -⟩ := append_run tlv htype hbuilt
    cases done with
    | true =>
      obtain ⟨added, store₂, hrun, hsub, hbuilt₂⟩ := ih (hyes rfl)
      refine ⟨tlv :: added, store₂, ?_, hsub.cons_cons tlv, ?_⟩
      · rw [appendAll, bind_run, happend]
        dsimp only
        rw [bind_run, hrun]
        rfl
      · rwa [List.append_assoc, List.singleton_append] at hbuilt₂
    | false =>
      obtain ⟨hmem, hlist⟩ := hno rfl
      have hbuilt₁ : Built host.endian type start tlvs store₁ := {
        placed := by rw [hmem, hlist]; exact hbuilt.placed
        messageLength := by rw [hmem]; exact hbuilt.messageLength
        fits := hbuilt.fits
        fixed := by rw [hmem]; exact hbuilt.fixed
        admitted := hbuilt.admitted }
      obtain ⟨added, store₂, hrun, hsub, hbuilt₂⟩ := ih hbuilt₁
      refine ⟨added, store₂, ?_, hsub.cons tlv, hbuilt₂⟩
      rw [appendAll, bind_run, happend]
      dsimp only
      rw [bind_run, hrun]
      rfl

/-- A message without TLVs has been built from none. -/
theorem built_start (hempty : store.rest.tlvList = [])
    (hlength : hostWord endian store.mem 2 2 = type.pduLength) :
    Built endian type store.mem [] store where
  placed := by rw [hempty]; rfl
  messageLength := hlength
  fits := by cases type <;> decide
  fixed _ _ _ := rfl
  admitted _ := rfl

end HostTlv

end LinuxPtp.Wire
