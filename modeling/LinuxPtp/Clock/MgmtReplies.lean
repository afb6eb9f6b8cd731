import LinuxPtp.Clock.ClockDescription

/-!
# Every reply

The layouts of the two functions are held against what the parser asks for.  All
of them are understood; what a client reads is what was meant, but for the low
word of the last phase change, for events subscribed to, which are laid out behind
the end of the TLV, and for values that are too large for their member.
-/

namespace LinuxPtp.Clock

open ByteOrder Access Wire Port Bmc

variable {endian : Endian} {host : Host} {mem : Memory}

/-! ## Identifiers -/

/-- What the parser makes of an identifier; of some it knows no data. -/
def MgmtId.parsed : MgmtId → Option ManagementId
  | clockDescription => some .clockDescription
  | userDescription => some .userDescription
  | defaultDataSet => some .defaultDataSet
  | currentDataSet => some .currentDataSet
  | parentDataSet => some .parentDataSet
  | timePropertiesDataSet => some .timePropertiesDataSet
  | portDataSet => some .portDataSet
  | timeStatusNp => some .timeStatusNp
  | grandmasterSettingsNp => some .grandmasterSettingsNp
  | portDataSetNp => some .portDataSetNp
  | subscribeEventsNp => some .subscribeEventsNp
  | portPropertiesNp => some .portPropertiesNp
  | _ => none

theorem MgmtId.ofCode_code (id : MgmtId) : ManagementId.ofCode id.code = id.parsed := by
  cases id <;> decide

theorem MgmtId.code_lt (id : MgmtId) : id.code < 2 ^ 16 := by
  cases id <;> decide

/-! ## Members -/

section

variable (offset : ℕ)

@[simp]
theorem uint8_fits (value : UInt8) : (uint8 offset value).Fits :=
  ⟨Int.natCast_nonneg _, by exact_mod_cast value.toNat_lt⟩

@[simp]
theorem uint16_fits (value : UInt16) : (uint16 offset value).Fits :=
  ⟨Int.natCast_nonneg _, by exact_mod_cast value.toNat_lt⟩

@[simp]
theorem uint32_fits (value : UInt32) : (uint32 offset value).Fits :=
  ⟨Int.natCast_nonneg _, by exact_mod_cast value.toNat_lt⟩

@[simp]
theorem uint64_fits (value : UInt64) : (uint64 offset value).Fits :=
  ⟨Int.natCast_nonneg _, by exact_mod_cast value.toNat_lt⟩

@[simp]
theorem int8_fits (value : Int8) : (int8 offset value).Fits := by
  have hle := value.le_toInt
  have hlt := value.toInt_lt
  simp only [int8, Member.Fits]
  omega

@[simp]
theorem int16_fits (value : Int16) : (int16 offset value).Fits := by
  have hle := value.le_toInt
  have hlt := value.toInt_lt
  simp only [int16, Member.Fits]
  omega

@[simp]
theorem int32_fits (value : Int32) : (int32 offset value).Fits := by
  have hle := value.le_toInt
  have hlt := value.toInt_lt
  simp only [int32, Member.Fits]
  omega

@[simp]
theorem int64_fits (value : Int64) : (int64 offset value).Fits := by
  have hle := value.le_toInt
  have hlt := value.toInt_lt
  simp only [int64, Member.Fits]
  omega

@[simp]
theorem octets_fits (bytes : List UInt8) : (Member.octets offset bytes).Fits := trivial

end

/-! ## Well-formed replies -/

/-- Members in the order of their offsets, up to the end of the data. -/
theorem wellFormed_of_isChain {reply : Reply}
    (hchain : reply.members.IsChain Member.Before)
    (hwithin : Within reply.dataLen reply.members) (hsmall : reply.dataLen ≤ 1000) :
    reply.WellFormed :=
  ⟨Member.disjoint_of_isChain hchain, Or.inr hwithin, hsmall⟩

variable {c : ReportedClock} {subscription : Option Subscription}
variable {target : ReportedPort} {id : MgmtId} {reply : Reply}

/-- The members of a reply lie within its data. -/
theorem clockReply_within (hreply : clockReply c subscription id = some reply)
    (hid : id ≠ .subscribeEventsNp) : Within reply.dataLen reply.members := by
  cases id <;> simp only [clockReply, Option.some.injEq, reduceCtorEq] at hreply <;>
    first
    | exact absurd rfl hid
    | (subst hreply
       simp [Within, datum, PtpText.members, DefaultDs.members, CurrentDs.members,
         ParentDs.members, TimePropertiesDs.members, ClockQuality.members,
         PortIdentity.members, uint8, uint16, uint64, int16, int32, int64,
         Member.offset, Member.width, ClockIdentity.bytes, DefaultDS.size,
         CurrentDS.size, ParentDS.size, TimePropertiesDS.size, TimeStatusNp.size,
         GrandmasterSettingsNp.size, sizeofPtpText])

/-- They do not overlap. -/
theorem clockReply_isChain (hreply : clockReply c subscription id = some reply)
    (hid : id ≠ .subscribeEventsNp) : reply.members.IsChain Member.Before := by
  cases id <;> simp only [clockReply, Option.some.injEq, reduceCtorEq] at hreply <;>
    first
    | exact absurd rfl hid
    | (subst hreply
       simp [datum, PtpText.members, DefaultDs.members, CurrentDs.members,
         ParentDs.members, TimePropertiesDs.members, ClockQuality.members,
         PortIdentity.members, uint8, uint16, uint64, int16, int32, int64,
         Member.Before, Member.offset, Member.width, ClockIdentity.bytes])

theorem clockReply_small (hreply : clockReply c subscription id = some reply) :
    reply.dataLen ≤ 1000 := by
  have htext := c.userDescription.length_lt
  cases id <;> simp only [clockReply, Option.some.injEq, reduceCtorEq] at hreply <;>
    subst hreply <;>
    simp only [datum, DefaultDS.size, CurrentDS.size, ParentDS.size,
      TimePropertiesDS.size, TimeStatusNp.size, GrandmasterSettingsNp.size,
      sizeofPtpText] <;>
    omega

theorem clockReply_wellFormed (hreply : clockReply c subscription id = some reply) :
    reply.WellFormed := by
  by_cases hid : id = .subscribeEventsNp
  · subst hid
    simp only [clockReply, Option.some.injEq] at hreply
    subst hreply
    refine ⟨?_, Or.inl rfl, Nat.zero_le _⟩
    cases subscription <;>
      simp [Member.Disjoint, uint16, Member.offset, Member.width]
  · exact wellFormed_of_isChain (clockReply_isChain hreply hid)
      (clockReply_within hreply hid) (clockReply_small hreply)

theorem portReply_within (hreply : portReply target id = some reply) :
    Within reply.dataLen reply.members := by
  cases id <;> simp only [portReply, Option.some.injEq, reduceCtorEq] at hreply <;>
    subst hreply <;>
    first
    | exact clockDescriptionReply_within target
    | (simp [Within, datum, PtpText.members, PortIdentity.members, uint8, uint16, uint32,
         int8, int32, int64, Member.offset, Member.width, ClockIdentity.bytes,
         PortDS.size, PortDsNp.size, PortPropertiesNp.size,
         PortPropertiesNp.intfTxtLength, sizeofPtpText] <;>
       omega)

theorem portReply_isChain (hreply : portReply target id = some reply) :
    reply.members.IsChain Member.Before := by
  cases id <;> simp only [portReply, Option.some.injEq, reduceCtorEq] at hreply <;>
    subst hreply <;>
    first
    | exact clockDescriptionReply_isChain target
    | simp [datum, PtpText.members, PortIdentity.members, uint8, uint16, uint32, int8,
        int32, int64, Member.Before, Member.offset, Member.width, ClockIdentity.bytes,
        PortPropertiesNp.intfTxtLength, sizeofPtpText]

theorem portReply_wellFormed (hreply : portReply target id = some reply) :
    reply.WellFormed := by
  have htext := target.tsLabel.length_lt
  refine wellFormed_of_isChain (portReply_isChain hreply) (portReply_within hreply) ?_
  cases id <;> simp only [portReply, Option.some.injEq, reduceCtorEq] at hreply <;>
    subst hreply <;>
    first
    | exact (clockDescriptionReply_wellFormed target).small
    | (simp only [datum, PortDS.size, PortDsNp.size, PortPropertiesNp.size]
       omega)

/-! ## Understood replies -/

/-- The data have the form that is asked of their identifier. -/
theorem understood_of_formatted {dataLen : ℕ} {members : List Member}
    {expected : TlvExtra}
    (hdata : ∀ mem, TlvLies endian id.code dataLen members mem → 0 < roundUp dataLen →
      MgtFormatted endian id.code mgmtData (roundUp dataLen) mem ∧
        mgtLocated endian id.code mgmtData mem { tlv := mgmtTlv } = expected)
    (hempty : roundUp dataLen = 0 → expected = { tlv := mgmtTlv }) :
    Understood endian id.code dataLen members expected := by
  intro mem hlies
  have hid : hostWord endian mem (mgmtTlv + 4) 2 = id.code := hlies.id
  have hlength : 2 + roundUp dataLen - ManagementTlv.id.width = roundUp dataLen :=
    Nat.add_sub_cancel_left 2 _
  have hplace : mgmtTlv + ManagementTlv.data = mgmtData := rfl
  simp only [Formatted, located, management_ofCode, hid, hlength, hplace]
  refine ⟨⟨Nat.le_add_right _ _, fun hmore => (hdata mem hlies ?_).1⟩, ?_⟩
  · simp only [ManagementTlv.id] at hmore
    omega
  · split
    · rename_i hmore
      simp only [ManagementTlv.id] at hmore
      exact (hdata mem hlies (by omega)).2
    · rename_i hmore
      simp only [ManagementTlv.id] at hmore
      exact (hempty (by omega)).symm

/-- Data that the parser does not look into, or of which it checks the size only. -/
theorem understood_of_size {dataLen : ℕ} {members : List Member}
    (hdata : 0 < roundUp dataLen →
      ∀ mem, MgtFormatted endian id.code mgmtData (roundUp dataLen) mem)
    (hlocated : ∀ mem, mgtLocated endian id.code mgmtData mem { tlv := mgmtTlv } =
      { tlv := mgmtTlv }) :
    Understood endian id.code dataLen members { tlv := mgmtTlv } :=
  understood_of_formatted (fun mem _ hpositive => ⟨hdata hpositive mem, hlocated mem⟩)
    fun _ => rfl

/-- A text that is understood ends where the data do. -/
theorem textEnd_of_lies {dataLen offset : ℕ} {members : List Member} {text : PtpText}
    (hlies : TlvLies endian id.code dataLen members mem)
    (htext : text.members offset ⊆ members)
    (hlength : dataLen = offset + sizeofPtpText + text.text.length) :
    roundUp (textEnd mem (mgmtData + offset) - mgmtData) = roundUp dataLen := by
  have hend := hlies.textEnd (htext (List.mem_cons_self ..)) text.length_lt
  rw [hend, ← hlength, Nat.add_sub_cancel_left]

/-- What `located` is for a TLV without pointers. -/
def Plainly (extra expected : TlvExtra) : Prop :=
  PointsInto extra expected ∧ expected.tlv = mgmtTlv

theorem plainly (cd : MgmtClockDescription) :
    Plainly { tlv := mgmtTlv, cd := cd } { tlv := mgmtTlv } :=
  ⟨⟨rfl, fun hno => absurd rfl hno, fun hno => absurd rfl hno,
    fun hno => absurd rfl hno, fun hno => absurd rfl hno⟩, rfl⟩

/-- The parser understands the replies of a clock. -/
theorem clockReply_understood (hreply : clockReply c subscription id = some reply)
    (hid : id ≠ .subscribeEventsNp) :
    ∃ expected, Understood endian id.code reply.dataLen reply.members expected ∧
      Plainly { tlv := mgmtTlv, cd := reply.cd } expected := by
  cases id <;> simp only [clockReply, Option.some.injEq, reduceCtorEq] at hreply <;>
    subst hreply
  case subscribeEventsNp => exact absurd rfl hid
  case userDescription =>
    refine ⟨{ tlv := mgmtTlv, cd := { userDescription := some mgmtData } },
      understood_of_formatted (fun mem hlies _ => ?_) fun hno => ?_,
      ⟨rfl, fun hno => absurd rfl hno, fun hno => absurd rfl hno,
        fun hno => absurd rfl hno, fun hno => absurd rfl hno⟩, rfl⟩
    · have hend := @textEnd_of_lies endian mem .userDescription _ 0 _
        c.userDescription hlies (List.Subset.refl _) (by simp only [Nat.zero_add])
      rw [Nat.add_zero] at hend
      simp only [MgtFormatted, mgtLocated, MgmtId.ofCode_code, MgmtId.parsed]
      exact ⟨hend, trivial⟩
    · simp only [roundUp, sizeofPtpText] at hno
      omega
  all_goals
    refine ⟨{ tlv := mgmtTlv }, understood_of_size (fun _ mem => ?_) fun mem => ?_,
      plainly _⟩ <;>
    simp [MgtFormatted, mgtLocated, MgmtId.ofCode_code, MgmtId.parsed, roundUp,
      DefaultDS.size, CurrentDS.size, ParentDS.size, TimePropertiesDS.size,
      TimeStatusNp.size, GrandmasterSettingsNp.size]

theorem subscribeEvents_understood :
    Understood endian MgmtId.subscribeEventsNp.code 0 [] { tlv := mgmtTlv } :=
  understood_of_size (fun hno => absurd hno (by decide)) fun mem => by
    simp [mgtLocated, MgmtId.ofCode_code, MgmtId.parsed]

/-- The parser understands the replies of a port. -/
theorem portReply_understood (hreply : portReply target id = some reply) :
    ∃ expected, Understood endian id.code reply.dataLen reply.members expected ∧
      Plainly { tlv := mgmtTlv, cd := reply.cd } expected := by
  cases id <;> simp only [portReply, Option.some.injEq, reduceCtorEq] at hreply <;>
    subst hreply
  case clockDescription =>
    exact ⟨describedAt target, clockDescription_understood target,
      clockDescriptionReply_points target, rfl⟩
  case portPropertiesNp =>
    refine ⟨{ tlv := mgmtTlv }, understood_of_formatted (fun mem hlies _ => ?_)
      fun _ => rfl, plainly _⟩
    simp only [MgtFormatted, mgtLocated, MgmtId.ofCode_code, MgmtId.parsed]
    exact ⟨textEnd_of_lies hlies (List.subset_append_right _ _) rfl, trivial⟩
  all_goals
    refine ⟨{ tlv := mgmtTlv }, understood_of_size (fun _ mem => ?_) fun mem => ?_,
      plainly _⟩ <;>
    simp [MgtFormatted, mgtLocated, MgmtId.ofCode_code, MgmtId.parsed, roundUp,
      PortDS.size, PortDsNp.size]

end LinuxPtp.Clock
