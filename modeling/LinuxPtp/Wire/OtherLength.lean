import LinuxPtp.Wire.FirstTlv
import LinuxPtp.Wire.HostList

/-!
# Parsing with another length

The same bytes may be parsed with another length than the one they were received with.
The first TLV is accepted as before when it still fits, and what is found behind it
depends on the bytes there only.
-/

namespace LinuxPtp.Wire

open ByteOrder Access

/-- A confined program does the same on bytes that look the same. -/
theorem confined_run_congr {α : Type} {program : WireM α} {lo hi : ℕ} {value : α}
    {store final : Store ParseState} (hconfined : Confined onBuffer lo hi program)
    (hrun : program store = (.ok value, final)) (other : Store ParseState)
    (hagree : AgreeOn lo hi store.mem other.mem) :
    ∃ final', program other = (.ok value, final') ∧
      AgreeOn lo hi final.mem final'.mem ∧ final'.rest = other.rest := by
  obtain ⟨hvalue, -, hmem⟩ := hconfined.congr store other hagree trivial
  have hrest : other.rest = (program other).2.rest := hconfined.updates other
  rw [hrun] at hvalue hmem
  exact ⟨(program other).2, Prod.ext hvalue.symm rfl, hmem, hrest.symm⟩

section

variable (host : Host)

/-! ## One TLV -/

/-- What comes before the switch over the type, for every length at once. -/
theorem suffixTlvPostRecv_run (ptr : ℕ) (store : Store ParseState) :
    ∃ spans, ∀ len, suffixTlvPostRecv host ptr len store =
      (if netWord store.mem (ptr + 2) 2 % 2 ≠ 0 then fail .ebadmsg
      else if netWord store.mem (ptr + 2) 2 > len - sizeofTlv then fail .ebadmsg
      else do
        let extra ← tlvPostRecv host (netWord store.mem ptr 2)
          (netWord store.mem (ptr + 2) 2) { tlv := ptr }
        pure (extra, netWord store.mem (ptr + 2) 2) : WireM (TlvExtra × ℕ))
        ⟨swapAll host.endian ptr tlvHeader store.mem, spans, store.rest⟩ := by
  have htype : hostWord host.endian (swapAll host.endian ptr tlvHeader store.mem)
      (ptr + Tlv.type.offset) Tlv.type.width = netWord store.mem ptr 2 :=
    hostWord_swapAll ptr Tlv.type tlvHeader_disjoint (by decide) store.mem
  have hlength : hostWord host.endian (swapAll host.endian ptr tlvHeader store.mem)
      (ptr + Tlv.length.offset) Tlv.length.width = netWord store.mem (ptr + 2) 2 :=
    hostWord_swapAll ptr Tlv.length tlvHeader_disjoint (by decide) store.mem
  refine ⟨⟨ptr + Tlv.length.offset, Tlv.length.width⟩ ::
    ⟨ptr + Tlv.type.offset, Tlv.type.width⟩ ::
      (fieldSpans ptr tlvHeader ++ store.spans), fun len => ?_⟩
  rw [suffixTlvPostRecv, bind_run, swapFields_run]
  simp only [readField, readWord, bind_run]
  rw [← tlvHeader, htype, hlength]

/-- A TLV that has been accepted is accepted whatever else the program keeps. -/
theorem suffixTlvPostRecv_runs {ptr len : ℕ} {tlv : TlvExtra × ℕ}
    {store final : Store ParseState} (hmore : sizeofTlv ≤ len)
    (hrun : suffixTlvPostRecv host ptr len store = (.ok tlv, final)) :
    Runs (suffixTlvPostRecv host ptr len) store.mem tlv final.mem := by
  intro spans rest
  have hconfined : Confined onBuffer ptr (ptr + len) (suffixTlvPostRecv host ptr len) :=
    confined_suffixTlvPostRecv host le_rfl hmore le_rfl
  obtain ⟨⟨mem, spans', rest'⟩, hother, hmem, hrest⟩ := confined_run_congr hconfined hrun
    ⟨store.mem, spans, rest⟩ fun _ _ _ => rfl
  have hsame : mem = final.mem := by
    funext i
    by_cases hinside : ptr ≤ i ∧ i < ptr + len
    · exact (hmem i hinside.1 hinside.2).symm
    · have houtside : i < ptr ∨ ptr + len ≤ i := by omega
      exact (hconfined.mem_eq hother houtside).trans
        (hconfined.mem_eq hrun houtside).symm
  exact ⟨spans', by rw [hother, hsame, show rest' = rest from hrest]⟩

/-- The length of the rest matters only as far as the TLV fits. -/
theorem suffixTlvPostRecv_otherLength {ptr len len' : ℕ} {tlv : TlvExtra × ℕ}
    {mem mem' : Memory} (hruns : Runs (suffixTlvPostRecv host ptr len) mem tlv mem')
    (hfits : tlv.2 ≤ len' - sizeofTlv) :
    Runs (suffixTlvPostRecv host ptr len') mem tlv mem' := by
  intro spans rest
  obtain ⟨spans', hrun⟩ := hruns spans rest
  obtain ⟨hlength, -⟩ := suffixTlvPostRecv_eq_ok host hrun
  obtain ⟨middle, heq⟩ := suffixTlvPostRecv_run host ptr ⟨mem, spans, rest⟩
  rw [heq len] at hrun
  obtain ⟨heven, hrun⟩ := ite_fail_eq_ok.mp hrun
  obtain ⟨-, hrun⟩ := ite_fail_eq_ok.mp hrun
  refine ⟨spans', ?_⟩
  rw [heq len', if_neg heven, if_neg (by omega)]
  exact hrun

/-- A TLV that does not fit is refused. -/
theorem suffixTlvPostRecv_refuses {ptr len : ℕ} {store : Store ParseState}
    (hlong : len - sizeofTlv < netWord store.mem (ptr + 2) 2) :
    ∃ err final, suffixTlvPostRecv host ptr len store = (.error err, final) := by
  obtain ⟨middle, heq⟩ := suffixTlvPostRecv_run host ptr store
  rw [heq len]
  split
  · exact ⟨_, _, rfl⟩
  · exact ⟨_, _, rfl⟩

/-- The bytes of the TLV decide. -/
theorem suffixTlvPostRecv_congr {ptr len len' : ℕ} {tlv : TlvExtra × ℕ}
    {store final : Store ParseState} (hmore : sizeofTlv ≤ len)
    (hrun : suffixTlvPostRecv host ptr len store = (.ok tlv, final)) {other : Memory}
    (hagree : AgreeOn ptr (ptr + sizeofTlv + tlv.2) store.mem other)
    (hfits : tlv.2 ≤ len' - sizeofTlv) :
    ∃ other', Runs (suffixTlvPostRecv host ptr len') other tlv other' ∧
      AgreeOn ptr (ptr + sizeofTlv + tlv.2) final.mem other' := by
  have hroom : tlv.2 ≤ sizeofTlv + tlv.2 - sizeofTlv :=
    Nat.le_of_eq (Nat.add_sub_cancel_left ..).symm
  have hlong : sizeofTlv ≤ sizeofTlv + tlv.2 := Nat.le_add_right ..
  obtain ⟨spans, hexact⟩ := suffixTlvPostRecv_otherLength host
    (suffixTlvPostRecv_runs host hmore hrun) hroom store.spans store.rest
  have hconfined : Confined onBuffer ptr (ptr + sizeofTlv + tlv.2)
      (suffixTlvPostRecv host ptr (sizeofTlv + tlv.2)) :=
    confined_suffixTlvPostRecv host le_rfl hlong (by omega)
  obtain ⟨final', hother, hmem, -⟩ := confined_run_congr hconfined hexact
    ⟨other, store.spans, store.rest⟩ hagree
  have hruns := suffixTlvPostRecv_runs host hlong hother
  exact ⟨final'.mem, suffixTlvPostRecv_otherLength host hruns hfits, hmem⟩

/-- What the first bytes of an accepted management TLV become. -/
theorem suffixTlvPostRecv_head {ptr len : ℕ} {tlv : TlvExtra × ℕ}
    {store final : Store ParseState}
    (hrun : suffixTlvPostRecv host ptr len store = (.ok tlv, final))
    (htype : netWord store.mem ptr 2 = TlvType.management.code) :
    2 ≤ tlv.2 ∧ AgreeOn ptr (ptr + 6) final.mem
      (swapAll host.endian ptr [ManagementTlv.id]
        (swapAll host.endian ptr tlvHeader store.mem)) := by
  obtain ⟨-, -, -, -, spans, hpost⟩ := suffixTlvPostRecv_eq_ok host hrun
  rw [htype] at hpost
  obtain ⟨hlong, hpost⟩ := ite_fail_eq_ok.mp hpost
  obtain ⟨_, store₁, h₁, hpost⟩ := bind_eq_ok.mp hpost
  obtain rfl := swapFields_eq_ok h₁
  have hlong : 2 ≤ tlv.2 := by
    simp only [ManagementTlv.size, sizeofTlv] at hlong
    omega
  refine ⟨hlong, fun i _ hi => ?_⟩
  split at hpost
  · exact (mgtPostRecv_checked host hlong hpost).1 i hi
  · obtain ⟨-, rfl⟩ := Prod.mk.inj hpost
    rfl

/-- The identifier of a management TLV when it has been converted. -/
theorem headSwap_id (ptr : ℕ) (mem : Memory) :
    hostWord host.endian (swapAll host.endian ptr [ManagementTlv.id]
      (swapAll host.endian ptr tlvHeader mem)) (ptr + ManagementTlv.id.offset)
        ManagementTlv.id.width = netWord mem (ptr + 4) 2 := by
  rw [hostWord_swapAll ptr ManagementTlv.id (by decide) (by decide)]
  exact netWord_congr fun i hge _ => swapAll_outside 0 4 (by decide) (Or.inr hge) mem

theorem mgtDataPostRecv_timeStatus {number : ℕ}
    (hid : ManagementId.ofCode number = some .timeStatusNp) (data : ℕ)
    (extra : TlvExtra) (mem : Memory) :
    Runs (mgtDataPostRecv host number data TimeStatusNp.size extra) mem (extra, 0)
      (phaseChangeSwap host.endian data TimeStatusNp.lastGmPhaseChange timeStatusBefore
        [TimeStatusNp.gmPresent] mem) := by
  simp only [mgtDataPostRecv, hid]
  rw [dataSetPostRecv, if_neg (not_not.mpr rfl)]
  exact (phaseChangeSwap_runs host data TimeStatusNp.lastGmPhaseChange timeStatusBefore
    [TimeStatusNp.gmPresent] mem).bind (.pure _ _)

/-- The time status is accepted whatever it says. -/
theorem suffixTlvPostRecv_timeStatus {ptr len : ℕ} {mem : Memory}
    (htype : TlvType.ofCode (netWord mem ptr 2) = some .management)
    (hlength : netWord mem (ptr + 2) 2 = ManagementTlv.id.width + TimeStatusNp.size)
    (hid : ManagementId.ofCode (netWord mem (ptr + 4) 2) = some .timeStatusNp)
    (hfits : netWord mem (ptr + 2) 2 ≤ len - sizeofTlv) (spans : List Span)
    (rest : ParseState) : ∃ extra final,
      suffixTlvPostRecv host ptr len ⟨mem, spans, rest⟩ =
        (.ok (extra, netWord mem (ptr + 2) 2), final) := by
  obtain ⟨middle, heq⟩ := suffixTlvPostRecv_run host ptr ⟨mem, spans, rest⟩
  rw [heq len]
  have heven : ¬netWord mem (ptr + 2) 2 % 2 ≠ 0 := by
    rw [hlength]
    decide
  simp only
  rw [if_neg heven, if_neg (not_lt.mpr hfits), hlength, bind_run]
  have hpost : Runs (tlvPostRecv host (netWord mem ptr 2)
      (ManagementTlv.id.width + TimeStatusNp.size) { tlv := ptr })
      (swapAll host.endian ptr tlvHeader mem) { tlv := ptr }
      (phaseChangeSwap host.endian (ptr + ManagementTlv.data)
        TimeStatusNp.lastGmPhaseChange timeStatusBefore [TimeStatusNp.gmPresent]
        (swapAll host.endian ptr [ManagementTlv.id]
          (swapAll host.endian ptr tlvHeader mem))) := by
    simp only [tlvPostRecv, htype]
    rw [if_neg (by decide), if_pos (by decide)]
    refine (swapFields_runs host _ _ _).bind ((Runs.readWord host.endian _ _ _).bind ?_)
    rw [headSwap_id]
    exact (mgtDataPostRecv_timeStatus host hid _ _ _).bind
      (Runs.passes (fun hnot => hnot.1 rfl) (.pure _ _))
  obtain ⟨spans', hrun⟩ := hpost middle rest
  rw [hrun]
  exact ⟨_, _, rfl⟩

/-- The first bytes of a TLV when it has been converted. -/
theorem headSwap_agreeOn {ptr : ℕ} {left right : Memory}
    (hagree : AgreeOn ptr (ptr + 6) left right) :
    AgreeOn ptr (ptr + 6)
      (swapAll host.endian ptr [ManagementTlv.id]
        (swapAll host.endian ptr tlvHeader left))
      (swapAll host.endian ptr [ManagementTlv.id]
        (swapAll host.endian ptr tlvHeader right)) := by
  let header := fieldsConversion host.endian ptr 0 4 tlvHeader (by decide)
  let id := fieldsConversion host.endian ptr 4 6 [ManagementTlv.id] (by decide)
  have hheader : AgreeOn ptr (ptr + 6) (header.apply left) (header.apply right) :=
    header.agreeOn_apply hagree (Nat.le_add_right _ _) (show ptr + 4 ≤ ptr + 6 by omega)
  exact id.agreeOn_apply hheader (Nat.le_add_right _ _) (show ptr + 6 ≤ ptr + 6 by omega)

theorem wireEcho_management {endian : Endian} {ptr : ℕ} {mem : Memory}
    (htype : netWord mem ptr 2 = TlvType.management.code) :
    wireEcho endian ptr mem =
      tlvEcho endian (netWord mem ptr 2) (netWord mem (ptr + 2) 2) ptr mem := by
  rw [wireEcho, if_neg]
  rintro ⟨hpath, -⟩
  rw [htype] at hpath
  exact absurd hpath (by decide)

/-- The identifier decides the length of the data. -/
theorem suffixTlvPostRecv_fixedSize {ptr len : ℕ} {tlv : TlvExtra × ℕ}
    {store final : Store ParseState}
    (hrun : suffixTlvPostRecv host ptr len store = (.ok tlv, final))
    (htype : netWord store.mem ptr 2 = TlvType.management.code) 
    (hlong : ManagementTlv.id.width < tlv.2)
    {id : ManagementId} {size : ℕ}
    (hid : ManagementId.ofCode (netWord store.mem (ptr + 4) 2) = some id)
    (hsize : fixedSize id = some size) : tlv.2 = 2 + size := by
  obtain ⟨-, -, -, -, spans, hpost⟩ := suffixTlvPostRecv_eq_ok host hrun
  rw [htype] at hpost
  obtain ⟨-, hpost⟩ := ite_fail_eq_ok.mp hpost
  obtain ⟨_, store₁, h₁, hpost⟩ := bind_eq_ok.mp hpost
  obtain rfl := swapFields_eq_ok h₁
  rw [if_pos hlong] at hpost
  exact (mgtPostRecv_checked host (Nat.le_of_lt hlong) hpost).2 id size
    ((congrArg ManagementId.ofCode (headSwap_id host ptr store.mem)).trans hid) hsize

/-- A management TLV is accepted again as it is sent, and looks as before up to its
data. -/
theorem suffixTlvPostRecv_echo {ptr len len' : ℕ} {tlv : TlvExtra × ℕ}
    {store final : Store ParseState} (hmore : sizeofTlv ≤ len)
    (hrun : suffixTlvPostRecv host ptr len store = (.ok tlv, final))
    (htype : netWord store.mem ptr 2 = TlvType.management.code)
    (other : Store ParseState)
    (hagree : AgreeOn ptr (ptr + sizeofTlv + tlv.2)
      (wireEcho host.endian ptr store.mem) other.mem)
    (hfits : tlv.2 ≤ len' - sizeofTlv) :
    ∃ tlv' final', suffixTlvPostRecv host ptr len' other = (.ok tlv', final') ∧
      tlv'.2 = tlv.2 ∧ AgreeOn ptr (ptr + 6) final.mem final'.mem := by
  obtain ⟨hlong, hhead⟩ := suffixTlvPostRecv_head host hrun htype
  obtain ⟨hlength, -⟩ := suffixTlvPostRecv_eq_ok host hrun
  rw [wireEcho_management htype, tlvEcho] at hagree
  have hsize : sizeofTlv = 4 := rfl
  suffices hagain : AgreeOn ptr (ptr + 6) store.mem other.mem ∧
      ∃ tlv' final', suffixTlvPostRecv host ptr len' other = (.ok tlv', final') ∧
        tlv'.2 = tlv.2 by
    obtain ⟨hsame, tlv', final', hother, hlength'⟩ := hagain
    have htype' : netWord other.mem ptr 2 = TlvType.management.code := by
      rw [← htype]
      exact (hsame.netWord le_rfl (by omega)).symm
    exact ⟨tlv', final', hother, hlength', hhead.trans
      ((headSwap_agreeOn host hsame).trans
        (suffixTlvPostRecv_head host hother htype').2.symm)⟩
  cases hsns : phaseChange (netWord store.mem ptr 2) (netWord store.mem (ptr + 2) 2) ptr
      store.mem with
  | none =>
    rw [hsns] at hagree
    obtain ⟨mem', hruns, -⟩ := suffixTlvPostRecv_congr host hmore hrun hagree hfits
    obtain ⟨spans', hother⟩ := hruns other.spans other.rest
    exact ⟨hagree.mono le_rfl (by omega), tlv, _, hother, rfl⟩
  | some sns =>
    rw [hsns] at hagree
    have hbehind := lt_phaseChange hsns
    simp only [phaseChange, htype, show TlvType.ofCode TlvType.management.code =
      some .management from by decide] at hsns
    split at hsns
    swap
    · simp at hsns
    rename_i hcondition
    obtain ⟨hbody, hid⟩ := hcondition
    rw [← hlength] at hbody
    have hexact := suffixTlvPostRecv_fixedSize host hrun htype hbody hid rfl
    have hsame : AgreeOn ptr (ptr + 6) store.mem other.mem := fun i hge hlt => by
      rw [← hagree i hge (by omega)]
      exact (scaledNsEcho_outside host.endian store.mem (Or.inl (by omega))).symm
    have htype' : netWord other.mem ptr 2 = netWord store.mem ptr 2 :=
      (hsame.netWord le_rfl (by omega)).symm
    have hlength' : netWord other.mem (ptr + 2) 2 = tlv.2 :=
      (hsame.netWord (by omega) (by omega)).symm.trans hlength.symm
    have hid' : netWord other.mem (ptr + 4) 2 = netWord store.mem (ptr + 4) 2 :=
      (hsame.netWord (by omega) (by omega)).symm
    obtain ⟨extra, final', hother⟩ := suffixTlvPostRecv_timeStatus host
      (by rw [htype', htype]; decide) (hlength'.trans hexact)
      (by rw [hid']; exact hid) (hlength' ▸ hfits) other.spans other.rest
    exact ⟨hsame, _, final', hother, hlength'⟩

/-! ## The list -/

variable (hcalloc : ∀ calls, host.calloc calls = true)
include hcalloc

/-- One round of the loop, which either goes on behind the TLV or lists no more. -/
theorem suffixLoop_round (rounds ptr : ℕ) {len : ℕ} (store : Store ParseState)
    (hmore : ¬len < sizeofTlv) :
    ∃ start : Store ParseState, start.mem = store.mem ∧
      (∀ tlv final, suffixTlvPostRecv host ptr len start = (.ok tlv, final) →
        ∃ next : Store ParseState, next.mem = final.mem ∧
          next.rest.tlvList = store.rest.tlvList ++ [tlv.1] ∧
          suffixLoop host (rounds + 1) ptr len store =
            suffixLoop host rounds (ptr + sizeofTlv + tlv.2)
              (len - sizeofTlv - tlv.2) next) ∧
      ∀ err final, suffixTlvPostRecv host ptr len start = (.error err, final) →
        (suffixLoop host (rounds + 1) ptr len store).2.rest.tlvList =
          store.rest.tlvList := by
  obtain ⟨pool, halloc, -⟩ := @tlvExtraAlloc_run host store 0 (Or.inr hcalloc)
  refine ⟨{ store with rest := { store.rest with pool := pool } }, rfl,
    fun tlv final hrun => ?_, fun err final hrun => ?_⟩
  · have hrest := suffixTlvPostRecv_rest host hrun
    refine ⟨⟨final.mem, final.spans,
      { final.rest with tlvList := final.rest.tlvList ++ [tlv.1] }⟩, rfl, ?_, ?_⟩
    · simp only [hrest]
    · rw [suffixLoop, if_neg hmore, bind_run, halloc]
      simp only
      rw [bind_run, onFail_eq_ok.mpr hrun]
      rfl
  · have hrest := (confined_suffixTlvPostRecv host (le_refl ptr) (not_lt.mp hmore)
      le_rfl).updates { store with rest := { store.rest with pool := pool } }
    rw [hrun] at hrest
    rw [suffixLoop, if_neg hmore, bind_run, halloc]
    simp only
    rw [bind_run]
    simp only [onFail, hrun, ParseState.recycle]
    rw [← hrest]

/-- What is listed depends on the bytes only. -/
theorem suffixLoop_lists {rounds ptr len : ℕ} (hrounds : len < rounds)
    (store other : Store ParseState)
    (hagree : AgreeOn ptr (ptr + len) store.mem other.mem) :
    ∃ tlvs, (suffixLoop host rounds ptr len store).2.rest.tlvList =
        store.rest.tlvList ++ tlvs ∧
      (suffixLoop host rounds ptr len other).2.rest.tlvList =
        other.rest.tlvList ++ tlvs := by
  induction rounds generalizing ptr len store other with
  | zero => omega
  | succ rounds ih =>
    by_cases hmore : len < sizeofTlv
    · refine ⟨[], ?_, ?_⟩ <;> rw [suffixLoop, if_pos hmore, List.append_nil] <;> rfl
    have hround : Confined onBuffer ptr (ptr + len) (suffixTlvPostRecv host ptr len) :=
      confined_suffixTlvPostRecv host le_rfl (not_lt.mp hmore) le_rfl
    obtain ⟨start, hstart, hgoes, hstops⟩ :=
      suffixLoop_round host hcalloc rounds ptr store hmore
    obtain ⟨start', hstart', hgoes', hstops'⟩ :=
      suffixLoop_round host hcalloc rounds ptr other hmore
    rw [← hstart, ← hstart'] at hagree
    rcases hrun : suffixTlvPostRecv host ptr len start with ⟨err | tlv, final⟩
    · have hvalue := (hround.congr start start' hagree trivial).1
      rw [hrun] at hvalue
      rcases hrun' : suffixTlvPostRecv host ptr len start' with ⟨result, final'⟩
      rw [hrun'] at hvalue
      obtain rfl : Except.error err = result := hvalue
      exact ⟨[], by rw [hstops err final hrun, List.append_nil],
        by rw [hstops' err final' hrun', List.append_nil]⟩
    · obtain ⟨final', hrun', hmem, -⟩ := confined_run_congr hround hrun start' hagree
      obtain ⟨next, hnext, hlist, hloop⟩ := hgoes tlv final hrun
      obtain ⟨next', hnext', hlist', hloop'⟩ := hgoes' tlv final' hrun'
      have hfits := (suffixTlvPostRecv_eq_ok host hrun).2.2.1
      have hsize : sizeofTlv = 4 := rfl
      obtain ⟨tlvs, hleft, hright⟩ := @ih (ptr + sizeofTlv + tlv.2)
        (len - sizeofTlv - tlv.2) (by omega) next next' (by
          rw [hnext, hnext']
          exact hmem.mono (by omega) (by omega))
      exact ⟨tlv.1 :: tlvs, by rw [hloop, hleft, hlist, List.append_assoc]; rfl,
        by rw [hloop', hright, hlist', List.append_assoc]; rfl⟩

/-- A list that starts with a management TLV, and the same list as it is sent: as many
TLVs are found in both, and the first one looks as before up to its data. -/
theorem suffixLoop_echo {ptr len len' : ℕ} {tlv : TlvExtra × ℕ}
    {start first : Store ParseState} (hmore : sizeofTlv ≤ len)
    (hrun : suffixTlvPostRecv host ptr len start = (.ok tlv, first))
    (htype : netWord start.mem ptr 2 = TlvType.management.code)
    {store other : Store ParseState} (hstore : store.mem = start.mem)
    (hempty : store.rest.tlvList = []) (hempty' : other.rest.tlvList = [])
    (hecho : AgreeOn ptr (ptr + sizeofTlv + tlv.2)
      (wireEcho host.endian ptr start.mem) other.mem)
    (hbehind : ∀ i, ptr + sizeofTlv + tlv.2 ≤ i → other.mem i = start.mem i) :
    (suffixLoop host (len' + 1) ptr len' other).2.rest.tlvList.length =
        (suffixLoop host (len' + 1) ptr len' store).2.rest.tlvList.length ∧
      ((suffixLoop host (len' + 1) ptr len' other).2.rest.tlvList ≠ [] →
        AgreeOn ptr (ptr + 6) first.mem
          (suffixLoop host (len' + 1) ptr len' other).2.mem) := by
  have hsize : sizeofTlv = 4 := rfl
  obtain ⟨hlength, -⟩ := suffixTlvPostRecv_eq_ok host hrun
  obtain ⟨hlong, -⟩ := suffixTlvPostRecv_head host hrun htype
  by_cases hless : len' < sizeofTlv
  · simp only [suffixLoop, if_pos hless]
    refine ⟨?_, fun hsome => absurd hempty' hsome⟩
    show other.rest.tlvList.length = store.rest.tlvList.length
    rw [hempty, hempty']
  obtain ⟨left, hleft, hgoes, hstops⟩ :=
    suffixLoop_round host hcalloc len' ptr store hless
  obtain ⟨right, hright, hgoes', hstops'⟩ :=
    suffixLoop_round host hcalloc len' ptr other hless
  by_cases hfits : tlv.2 ≤ len' - sizeofTlv
  swap
  · have hword : netWord other.mem (ptr + 2) 2 = netWord start.mem (ptr + 2) 2 := by
      refine netWord_congr fun i hge hlt => ?_
      rw [← hecho i (by omega) (by omega), wireEcho_management htype]
      exact tlvEcho_header host.endian _ _ start.mem (by omega)
    obtain ⟨err, final, hrefuses⟩ := @suffixTlvPostRecv_refuses host ptr len' left
      (by rw [hleft, hstore, ← hlength]; omega)
    obtain ⟨err', final', hrefuses'⟩ := @suffixTlvPostRecv_refuses host ptr len' right
      (by rw [hright, hword, ← hlength]; omega)
    have hnone := (hstops' err' final' hrefuses').trans hempty'
    refine ⟨?_, fun hsome => absurd hnone hsome⟩
    rw [hnone, hstops err final hrefuses, hempty]
  obtain ⟨spans, hsecond⟩ := suffixTlvPostRecv_otherLength host
    (suffixTlvPostRecv_runs host hmore hrun) hfits left.spans left.rest
  have hsecond : suffixTlvPostRecv host ptr len' left =
      (.ok tlv, ⟨first.mem, spans, left.rest⟩) := by
    rw [← hsecond, ← hstore, ← hleft]
  obtain ⟨tlv', final', hother, hsame, hhead⟩ := suffixTlvPostRecv_echo host hmore hrun
    htype right (by rw [hright]; exact hecho) hfits
  obtain ⟨next, hnext, hlist, hloop⟩ := hgoes tlv _ hsecond
  obtain ⟨next', hnext', hlist', hloop'⟩ := hgoes' tlv' final' hother
  rw [hsame] at hloop'
  obtain ⟨tlvs, hfound, hfound'⟩ := @suffixLoop_lists host hcalloc len'
    (ptr + sizeofTlv + tlv.2) (len' - sizeofTlv - tlv.2) (by omega) next next'
    fun i hge _ => by
      rw [hnext, hnext']
      simp only
      rw [suffixTlvPostRecv_outside host hrun (Or.inr hge),
        suffixTlvPostRecv_outside host hother (Or.inr (by omega)), hright, hbehind i hge]
  refine ⟨?_, fun _ i hge hlt => ?_⟩
  · rw [hloop, hloop', hfound, hfound', hlist, hlist', hempty, hempty']
    simp only [List.length_append, List.length_cons]
  · have hlater : Confined whileParsing (ptr + sizeofTlv + tlv.2) (ptr + len')
        (suffixLoop host len' (ptr + sizeofTlv + tlv.2) (len' - sizeofTlv - tlv.2)) :=
      confined_suffixLoop host (by omega) le_rfl (by omega)
    rw [hloop', hlater.frame next' i (Or.inl (by omega)), hnext']
    exact hhead i hge hlt

/-! ## Messages -/

omit hcalloc in
/-- A length below that of the fixed part lists nothing. -/
theorem ptpMsgReceive_short {store : Store ParseState} {cnt : ℕ}
    (htype : typeOf store.mem = some .management) (hshort : cnt < 48) :
    (ptpMsgReceive host cnt store).2.rest.tlvList = store.rest.tlvList := by
  by_cases hsize : cnt < Header.size
  · rw [ptpMsgReceive, if_pos hsize]
    rfl
  rw [ptpMsgReceive, if_neg hsize, bind_run]
  by_cases hversion : versionOf store.mem = version
  · rw [hdrPostRecv_run host hversion]
    simp only
    rw [bind_run, msgType_run]
    simp only
    rw [swapAll_outside 2 32 (by decide) (by omega)]
    rw [typeOf] at htype
    simp only [htype]
    rw [if_pos (show cnt < MsgType.management.pduLength from hshort)]
    rfl
  · rw [hdrPostRecv_refuses host hversion]

omit hcalloc in
/-- The round over the first TLV of an accepted message. -/
theorem ptpMsgReceive_firstRound {cnt : ℕ} {wire parsed : Store ParseState}
    (hrun : ptpMsgReceive host cnt wire = (.ok (), parsed))
    (htype : typeOf wire.mem = some .management) (hempty : wire.rest.tlvList = [])
    (hsome : parsed.rest.tlvList ≠ []) :
    ∃ tlv start first, sizeofTlv ≤ cnt - 48 ∧
      start.mem = fixedPart host.endian .management wire.mem ∧
      suffixTlvPostRecv host 48 (cnt - 48) start = (.ok tlv, first) ∧
      ∀ i < 52 + tlv.2, parsed.mem i = first.mem i := by
  obtain ⟨hpdu, before, hloop⟩ := ptpMsgReceive_management host hrun htype
  have hmore : ¬cnt - 48 < sizeofTlv := by
    intro hless
    rw [suffixLoop, if_pos hless] at hloop
    have hlist := congrArg (fun run => run.2.rest.tlvList) hloop
    exact hsome (hlist.symm.trans hempty)
  obtain ⟨tlv, start, first, hstart, hround, -, -, next, hnext, -, hlater⟩ :=
    suffixLoop_eq_ok host hloop hmore
  refine ⟨tlv, start, first, not_lt.mp hmore, hstart, hround, fun i hi => ?_⟩
  rw [← hnext]
  exact suffixLoop_outside host hlater (Or.inl hi)

/-- The same for a management message with one management TLV. -/
theorem ptpMsgReceive_echo {cnt : ℕ} {wire parsed other : Store ParseState}
    (hrun : ptpMsgReceive host cnt wire = (.ok (), parsed))
    (htype : typeOf wire.mem = some .management) (hempty : wire.rest.tlvList = [])
    (hone : parsed.rest.tlvList.length = 1)
    (hmanagement : netWord wire.mem 48 2 = TlvType.management.code)
    (hempty' : other.rest.tlvList = []) (hhead : other.mem 0 = wire.mem 0)
    (hversion : other.mem 1 = wire.mem 1)
    (hecho : AgreeOn 48 (52 + netWord wire.mem 50 2)
      (wireEcho host.endian 48 wire.mem) other.mem)
    (hbehind : ∀ i, 52 + netWord wire.mem 50 2 ≤ i → other.mem i = wire.mem i)
    (cnt' : ℕ) :
    (ptpMsgReceive host cnt' other).2.rest.tlvList.length =
        (ptpMsgReceive host cnt' wire).2.rest.tlvList.length ∧
      ((ptpMsgReceive host cnt' other).2.rest.tlvList ≠ [] →
        AgreeOn 48 54 parsed.mem (ptpMsgReceive host cnt' other).2.mem ∧
          ∀ i < 48, (ptpMsgReceive host cnt' other).2.mem i =
            fixedPart host.endian .management other.mem i) := by
  have htype' : typeOf other.mem = some .management := by
    rw [typeOf, hhead]
    exact htype
  by_cases hshort : cnt' < 48
  · have hnone := (ptpMsgReceive_short host htype' hshort).trans hempty'
    refine ⟨?_, fun hsome => absurd hnone hsome⟩
    rw [hnone, ptpMsgReceive_short host htype hshort, hempty]
  obtain ⟨hversion₀, -⟩ := ptpMsgReceive_eq_ok host hrun
  have hversion' : versionOf other.mem = version := by
    rw [versionOf, hversion]
    exact hversion₀
  have hkept : ∀ mem i, 48 ≤ i → fixedPart host.endian .management mem i = mem i :=
    fun mem i hi => fixedPart_outside host.endian .management mem (Or.inr (Or.inr hi))
  obtain ⟨tlv, start, first, hmore, hstart, hround, hfirst⟩ :=
    ptpMsgReceive_firstRound host hrun htype hempty fun hnone => by
      rw [hnone] at hone
      exact absurd hone (by decide)
  have hword : ∀ offset, 48 ≤ offset →
      netWord start.mem offset 2 = netWord wire.mem offset 2 := fun offset hge => by
    rw [hstart]
    exact netWord_congr fun i hi _ => hkept wire.mem i (by omega)
  obtain ⟨hlength, -⟩ := suffixTlvPostRecv_eq_ok host hround
  rw [hword 50 (by decide)] at hlength
  have hstarts : netWord start.mem 48 2 = TlvType.management.code := by
    rw [hword 48 le_rfl]
    exact hmanagement
  obtain ⟨hlong, -⟩ := suffixTlvPostRecv_head host hround hstarts
  have hparsed : AgreeOn 48 54 parsed.mem first.mem :=
    fun i _ hi => hfirst i (by omega)
  have hreceive : ∀ store : Store ParseState, versionOf store.mem = version →
      typeOf store.mem = some .management → ∃ spans, ptpMsgReceive host cnt' store =
        suffixLoop host (cnt' - 48 + 1) 48 (cnt' - 48)
          ⟨fixedPart host.endian .management store.mem, spans, store.rest⟩ := by
    intro store hversion htype
    obtain ⟨spans, hreceive⟩ := ptpMsgReceive_run host hversion htype (not_lt.mp hshort)
    rw [hreceive, bind_run, bodyPostRecv, portIdPostRecv, swapFields_run]
    exact ⟨_, rfl⟩
  obtain ⟨spans, hwire⟩ := hreceive wire hversion₀ htype
  obtain ⟨spans', hother⟩ := hreceive other hversion' htype'
  rw [hwire, hother]
  have hsent : AgreeOn 48 (48 + sizeofTlv + tlv.2)
      (wireEcho host.endian 48 start.mem)
      (fixedPart host.endian .management other.mem) := fun i hge hlt => by
    simp only [sizeofTlv] at hlt
    rw [hkept other.mem i hge, ← hecho i hge (by omega), hstart]
    exact wireEcho_congr (hkept wire.mem) hge
  have hrest : ∀ i, 48 + sizeofTlv + tlv.2 ≤ i →
      fixedPart host.endian .management other.mem i = start.mem i := fun i hge => by
    simp only [sizeofTlv] at hge
    rw [hkept other.mem i (by omega), hbehind i (by omega), hstart]
    exact (hkept wire.mem i (by omega)).symm
  obtain ⟨hcount, hsame⟩ := @suffixLoop_echo host hcalloc 48 (cnt - 48) (cnt' - 48) tlv
    start first hmore hround hstarts
    ⟨fixedPart host.endian .management wire.mem, spans, wire.rest⟩
    ⟨fixedPart host.endian .management other.mem, spans', other.rest⟩ hstart.symm
    hempty hempty' hsent hrest
  refine ⟨hcount, fun hsome => ⟨hparsed.trans (hsame hsome), fun i hi => ?_⟩⟩
  have hconfined : Confined whileParsing 48 (48 + (cnt' - 48))
      (suffixLoop host (cnt' - 48 + 1) 48 (cnt' - 48)) :=
    confined_suffixLoop host (Nat.lt_succ_self _) le_rfl le_rfl
  exact hconfined.frame _ i (Or.inl hi)

omit hcalloc in
/-- Encoding a message leaves the bytes behind it alone. -/
theorem msgPreSend_management_behind {cnt : ℕ} {store : Store ParseState} {target : Memory}
    (htype : typeOf store.mem = some .management)
    (hrestores : Restores (suffixPreSendLoop host store.rest.tlvList) 48 cnt store.mem
      target) (hpdu : 48 ≤ cnt) {i : ℕ} (hi : cnt ≤ i) :
    (msgPreSend host store).2.mem i = store.mem i := by
  have hkept : ∀ i, 48 ≤ i → fixedPart host.endian .management store.mem i =
      store.mem i := fun i hi =>
    fixedPart_outside host.endian .management store.mem (Or.inr (Or.inr hi))
  obtain ⟨mem, hruns, -, hframe⟩ := hrestores _ fun i hge _ => hkept i hge
  obtain ⟨before, hrun⟩ := msgPreSend_run host htype
  obtain ⟨spans, hsuffix⟩ := hruns before store.rest
  rw [hrun, suffixPreSend, bind_run, bind_run, getRest]
  simp only
  rw [bind_run, hsuffix]
  exact (hframe i (Or.inr hi)).trans (hkept i (by omega))

end

end LinuxPtp.Wire
